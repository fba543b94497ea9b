/- # Reading a type expression

The grammar of type expressions over tokens, where a blank may stand next to every mark inside
`<…>` and `(…)`:

    union    ::=  branch ('|' branch)*
    branch   ::=  '...' postfix  |  postfix '...'?
    postfix  ::=  primary '[]'*
    primary  ::=  NAME  |  NAME '<' union (',' union)* '>'  |  '(' union ')'

Outside all brackets a blank ends the expression, and what follows it is prose; it may also end
the expression directly after a `|`.

The reader is a machine with a stack of open brackets.  It takes one token at a time and never
goes back, so the token at which it fails is the first one that no expression continues with.
-/

import AmbientDecl.Text.Quoted
import AmbientDecl.TypeExpr.Basic
import AmbientDecl.TypeExpr.Token

namespace AmbientDecl
namespace TypeExpr

/-- Why a text is no type expression. -/
inductive SyntaxFault where
  /-- A name or a parenthesis has to stand here. -/
  | expectedType
  /-- The bracket has to be closed here by a token of this kind. -/
  | expectedClose (kind : TokenKind)
  /-- An expression is followed by something other than prose. -/
  | unexpectedToken
  deriving DecidableEq

/-- The wording of a fault. -/
def SyntaxFault.reason : SyntaxFault → String
  | expectedType => "expected a type"
  | expectedClose kind => "expected " ++ kind.label
  | unexpectedToken => "unexpected token"

/-- A text that is no type expression, with the fault and its place. -/
structure SyntaxError where
  text : String
  position : Nat
  fault : SyntaxFault
  deriving DecidableEq

/-- The message of a syntax error. -/
def SyntaxError.message (e : SyntaxError) : String :=
  e.fault.reason ++ " at " ++ toString e.position ++ " in " ++ Text.quoted e.text

/-- A union that is being read. -/
structure Level where
  /-- The branches before the present one. -/
  branches : List TypeExpr
  /-- Whether an ellipsis opened the present branch. -/
  spread : Bool

/-- The union before its first branch. -/
def Level.start : Level := ⟨[], false⟩

/-- The union with `e` as its last branch. -/
def Level.close (level : Level) (e : TypeExpr) : TypeExpr :=
  ofBranches (level.branches ++ [e])

/-- The union before the branch that follows `e`. -/
def Level.next (level : Level) (e : TypeExpr) : Level :=
  ⟨level.branches ++ [e], false⟩

/-- A bracket that can stay open. -/
inductive Bracket where
  /-- The arguments of `base`, with those read so far. -/
  | arguments (base : String) (args : List TypeExpr)
  /-- A parenthesis. -/
  | paren

/-- The kind of token that closes a bracket. -/
def Bracket.closer : Bracket → TokenKind
  | arguments _ _ => .greater
  | paren => .closeParen

/-- What was read last in the present union. -/
inductive Phase where
  /-- Nothing of the present branch. -/
  | start
  /-- The ellipsis before a branch. -/
  | operand
  /-- A name, which may still get arguments. -/
  | named (name : String)
  /-- An expression, which may still get `[]` or an ellipsis. -/
  | value (e : TypeExpr)
  /-- A whole branch. -/
  | branch (e : TypeExpr)

/-- The state of the reader. -/
inductive State where
  /-- The open brackets, innermost first, each with the union around it; the present union;
  and the phase in it. -/
  | reading (frames : List (Bracket × Level)) (level : Level) (phase : Phase)
  /-- The expression has ended and prose follows. -/
  | finished (e : TypeExpr)

namespace State

/-- The state before the first token. -/
def initial : State := reading [] .start .start

/-- A branch has to start: a name, a parenthesis and perhaps an ellipsis. -/
def stepOperand (frames : List (Bracket × Level)) (level : Level) (token : Token) :
    Except SyntaxFault State :=
  match token.kind with
  | .name => .ok (reading frames level (.named token.text))
  | .openParen => .ok (reading ((.paren, level) :: frames) .start .start)
  | _ => .error .expectedType

/-- After a whole branch of the union outside all brackets. -/
def stepOuterBranch (level : Level) (e : TypeExpr) (token : Token) : Except SyntaxFault State :=
  match token.kind with
  | .bar => .ok (reading [] (level.next e) .start)
  | .blank => .ok (finished (level.close e))
  | _ => .error .unexpectedToken

/-- After a whole branch of a union in a bracket; `outer` is the union around the bracket. -/
def stepInnerBranch (bracket : Bracket) (outer : Level) (frames : List (Bracket × Level))
    (level : Level) (e : TypeExpr) (token : Token) : Except SyntaxFault State :=
  match token.kind, bracket with
  | .blank, _ => .ok (reading ((bracket, outer) :: frames) level (.branch e))
  | .bar, _ => .ok (reading ((bracket, outer) :: frames) (level.next e) .start)
  | .comma, .arguments base args =>
    .ok (reading ((.arguments base (args ++ [level.close e]), outer) :: frames) .start .start)
  | .greater, .arguments base args =>
    .ok (reading frames outer (.value (generic base (args ++ [level.close e]))))
  | .closeParen, .paren => .ok (reading frames outer (.value (level.close e)))
  | _, _ => .error (.expectedClose bracket.closer)

/-- After a whole branch. -/
def stepBranch (frames : List (Bracket × Level)) (level : Level) (e : TypeExpr)
    (token : Token) : Except SyntaxFault State :=
  match frames with
  | [] => stepOuterBranch level e token
  | (bracket, outer) :: frames => stepInnerBranch bracket outer frames level e token

/-- A branch is whole once its last postfix is read; an ellipsis before it makes it variadic. -/
def wholeBranch (level : Level) (e : TypeExpr) : TypeExpr :=
  if level.spread then variadic e else e

/-- After an expression: an array mark or, in a branch that none opened, an ellipsis. -/
def stepValue (frames : List (Bracket × Level)) (level : Level) (e : TypeExpr)
    (token : Token) : Except SyntaxFault State :=
  match token.kind, level.spread with
  | .array, _ => .ok (reading frames level (.value (array e)))
  | .ellipsis, false => .ok (reading frames level (.branch (variadic e)))
  | _, _ => stepBranch frames level (wholeBranch level e) token

/-- The start of a branch: blanks are free in brackets and end the expression after a `|`. -/
def stepStart (frames : List (Bracket × Level)) (level : Level) (token : Token) :
    Except SyntaxFault State :=
  match token.kind with
  | .blank =>
    if frames ≠ [] then .ok (reading frames level .start)
    else if level.branches ≠ [] then .ok (finished (ofBranches level.branches))
    else .error .expectedType
  | .ellipsis => .ok (reading frames { level with spread := true } .operand)
  | _ => stepOperand frames level token

/-- One token. -/
def step (state : State) (token : Token) : Except SyntaxFault State :=
  match state with
  | finished e => .ok (finished e)
  | reading frames level .start => stepStart frames level token
  | reading frames level .operand => stepOperand frames level token
  | reading frames level (.named n) =>
    if token.kind = .less then .ok (reading ((.arguments n [], level) :: frames) .start .start)
    else stepValue frames level (name n) token
  | reading frames level (.value e) => stepValue frames level e token
  | reading frames level (.branch e) => stepBranch frames level e token

/-- The end of the tokens after a whole branch: every bracket must be closed. -/
def endBranch (frames : List (Bracket × Level)) (level : Level) (e : TypeExpr) :
    Except SyntaxFault TypeExpr :=
  match frames with
  | [] => .ok (level.close e)
  | (bracket, _) :: _ => .error (.expectedClose bracket.closer)

/-- The end of the tokens. -/
def finish : State → Except SyntaxFault TypeExpr
  | finished e => .ok e
  | reading [] level .start =>
    if level.branches ≠ [] then .ok (ofBranches level.branches) else .error .expectedType
  | reading _ _ .start => .error .expectedType
  | reading _ _ .operand => .error .expectedType
  | reading frames level (.named n) => endBranch frames level (wholeBranch level (name n))
  | reading frames level (.value e) => endBranch frames level (wholeBranch level e)
  | reading frames level (.branch e) => endBranch frames level e

/-- Reads the rest of the tokens; a failure holds the tokens from the faulty one on. -/
def run (state : State) : List Token → Except (SyntaxFault × List Token) TypeExpr
  | [] => (finish state).mapError fun fault => (fault, [])
  | token :: rest =>
    match step state token with
    | .ok next => run next rest
    | .error fault => .error (fault, token :: rest)

end State

/-- The type expression that a list of tokens starts with, up to the prose after it. -/
def ofTokens (tokens : List Token) : Except (SyntaxFault × List Token) TypeExpr :=
  State.initial.run tokens

/-- The type expression that a text starts with, up to the prose after it. -/
def read (text : String) : Except SyntaxError TypeExpr :=
  let text := String.ofList (Text.trim text.toList)
  (ofTokens (Token.tokens text)).mapError fun (fault, rest) =>
    ⟨text, (rest.head?.map Token.position).getD text.length, fault⟩

end TypeExpr
end AmbientDecl
