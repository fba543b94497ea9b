/- # The grammar of type expressions

The grammar over tokens, with a tree for each of its phrases:

    union(free)  ::=  branch (gap(free) '|' gap(free) branch)*
    arguments    ::=  union(true) gap(true) (',' gap(true) union(true) gap(true))*
    branch       ::=  '...' operand  |  operand  |  operand '...'
    operand      ::=  atom  |  operand '[]'
    atom         ::=  NAME  |  NAME '<' gap(true) arguments '>'
                   |  '(' gap(true) union(true) gap(true) ')'

A gap is a run of blanks where they are free, that is in brackets, and nothing elsewhere.  Unions
and arguments grow at their end, which is how the reader takes them in.
-/

import AmbientDecl.TypeExpr.Reader

namespace AmbientDecl
namespace TypeExpr

/-- Blanks between two tokens, where they are free. -/
def Gap (free : Bool) (tokens : List Token) : Prop :=
  ∀ token ∈ tokens, free = true ∧ token.kind = .blank

/-- The phrases of the grammar with the trees that they stand for. -/
inductive Phrase where
  /-- The branches of a union, in brackets or outside of all. -/
  | union (free : Bool) (branches : List TypeExpr)
  | arguments (args : List TypeExpr)
  | branch (e : TypeExpr)
  | operand (e : TypeExpr)
  | atom (e : TypeExpr)

/-- The tokens of a phrase. -/
inductive Derives : Phrase → List Token → Prop where
  | single {free : Bool} {e : TypeExpr} {ts : List Token} (branch : Derives (.branch e) ts) :
      Derives (.union free [e]) ts
  | bar {free : Bool} {es : List TypeExpr} {e : TypeExpr} {us gap gap' ts : List Token}
      {bar : Token} (before : Derives (.union free es) us) (left : Gap free gap)
      (kind : bar.kind = .bar) (right : Gap free gap') (branch : Derives (.branch e) ts) :
      Derives (.union free (es ++ [e])) (us ++ gap ++ bar :: (gap' ++ ts))
  | argument {es : List TypeExpr} {us gap : List Token} (union : Derives (.union true es) us)
      (right : Gap true gap) : Derives (.arguments [ofBranches es]) (us ++ gap)
  | comma {args es : List TypeExpr} {ts us gap gap' : List Token} {comma : Token}
      (before : Derives (.arguments args) ts) (kind : comma.kind = .comma) (left : Gap true gap)
      (union : Derives (.union true es) us) (right : Gap true gap') :
      Derives (.arguments (args ++ [ofBranches es])) (ts ++ comma :: (gap ++ (us ++ gap')))
  | plain {e : TypeExpr} {ts : List Token} (operand : Derives (.operand e) ts) :
      Derives (.branch e) ts
  | ahead {e : TypeExpr} {ts : List Token} {ellipsis : Token} (kind : ellipsis.kind = .ellipsis)
      (operand : Derives (.operand e) ts) : Derives (.branch (variadic e)) (ellipsis :: ts)
  | behind {e : TypeExpr} {ts : List Token} {ellipsis : Token} (operand : Derives (.operand e) ts)
      (kind : ellipsis.kind = .ellipsis) : Derives (.branch (variadic e)) (ts ++ [ellipsis])
  | atom {e : TypeExpr} {ts : List Token} (atom : Derives (.atom e) ts) : Derives (.operand e) ts
  | array {e : TypeExpr} {ts : List Token} {mark : Token} (operand : Derives (.operand e) ts)
      (kind : mark.kind = .array) : Derives (.operand (array e)) (ts ++ [mark])
  | name {token : Token} (kind : token.kind = .name) : Derives (.atom (name token.text)) [token]
  | generic {args : List TypeExpr} {base less greater : Token} {gap ts : List Token}
      (kind : base.kind = .name) (opens : less.kind = .less) (left : Gap true gap)
      (arguments : Derives (.arguments args) ts) (closes : greater.kind = .greater) :
      Derives (.atom (generic base.text args)) (base :: less :: (gap ++ ts ++ [greater]))
  | paren {es : List TypeExpr} {opening closing : Token} {gap gap' us : List Token}
      (opens : opening.kind = .openParen) (left : Gap true gap)
      (union : Derives (.union true es) us) (right : Gap true gap')
      (closes : closing.kind = .closeParen) :
      Derives (.atom (ofBranches es)) (opening :: (gap ++ (us ++ gap') ++ [closing]))

/-- Nothing or one bar. -/
def Dangling (tokens : List Token) : Prop :=
  tokens = [] ∨ ∃ bar : Token, bar.kind = .bar ∧ tokens = [bar]

/-- Nothing or a blank and whatever follows it. -/
def Prose (tokens : List Token) : Prop := ∀ token ∈ tokens.head?, token.kind = .blank

/-- The tokens are those of a type expression, perhaps a bar after it, and prose. -/
def BeginsWith (tokens : List Token) (e : TypeExpr) : Prop :=
  ∃ es us bar prose, Derives (.union false es) us ∧ ofBranches es = e ∧ Dangling bar ∧
    Prose prose ∧ tokens = us ++ bar ++ prose

theorem Gap.nil (free : Bool) : Gap free [] := fun _ mem => absurd mem List.not_mem_nil

theorem Gap.append {free : Bool} {gap gap' : List Token} (h : Gap free gap) (h' : Gap free gap') :
    Gap free (gap ++ gap') := fun token mem =>
  (List.mem_append.1 mem).elim (h token) (h' token)

theorem Gap.blank {token : Token} (h : token.kind = .blank) : Gap true [token] := fun _ mem =>
  ⟨rfl, List.mem_singleton.1 mem ▸ h⟩

/-- Outside all brackets there are no gaps. -/
theorem Gap.eq_nil {gap : List Token} (h : Gap false gap) : gap = [] :=
  List.eq_nil_iff_forall_not_mem.2 fun token mem => absurd (h token mem).1 (by decide)

/-- A union has a branch. -/
theorem Derives.branches_ne_nil {free : Bool} {es : List TypeExpr} {ts : List Token}
    (h : Derives (.union free es) ts) : es ≠ [] := by
  cases h <;> simp

end TypeExpr
end AmbientDecl
