/- # Tokens of a type expression

A text is cut into lexemes from left to right.

| kind | lexeme |
| --- | --- |
| `blank` | a longest run of blanks |
| `ellipsis` | `...` |
| `array` | `[]` |
| `name` | `*`, or a letter, `_` or `$` with the letters, digits, `_`, `$` and `.` after it |
| `less`, `greater`, `comma`, `bar`, `open`, `close` | `<`, `>`, `,`, `\|`, `(`, `)` |
| `other` | any other single character |

Letters and digits are those of ASCII.  A name takes one question mark after it; without one it
gives its trailing dots back, so that `Foo...` is the name `Foo` and an ellipsis.  A position
counts the characters before the token.
-/

import AmbientDecl.Text.Blank

namespace AmbientDecl

/-- The kinds of lexemes. -/
inductive TokenKind where
  | name
  | less
  | greater
  | comma
  | bar
  | array
  | ellipsis
  | openParen
  | closeParen
  | blank
  | other
  deriving DecidableEq, Inhabited

/-- The word for a kind in a message. -/
def TokenKind.label : TokenKind → String
  | name => "NAME"
  | less => "LT"
  | greater => "GT"
  | comma => "COMMA"
  | bar => "BAR"
  | array => "ARRAY"
  | ellipsis => "ELLIPSIS"
  | openParen => "LPAREN"
  | closeParen => "RPAREN"
  | blank => "WS"
  | other => "OTHER"

/-- A lexeme with its kind and its place in the text. -/
structure Token where
  kind : TokenKind
  text : String
  position : Nat
  deriving DecidableEq, Inhabited

namespace Token

/-- A character that a name may start with. -/
def isNameStart (c : Char) : Bool :=
  c.isAlpha || c = '_' || c = '$'

/-- A character that may stand inside a name. -/
def isNameChar (c : Char) : Bool :=
  c.isAlphanum || c = '_' || c = '$' || c = '.'

/-- A text without its trailing dots. -/
def dropTrailingDots (cs : List Char) : List Char :=
  (cs.reverse.dropWhile (· = '.')).reverse

/-- The name at the start of a text: it ends with a question mark or without a dot. -/
def nameLexeme (cs : List Char) : List Char :=
  if (cs.dropWhile isNameChar).head? = some '?' then cs.takeWhile isNameChar ++ ['?']
  else dropTrailingDots (cs.takeWhile isNameChar)

/-- The lexeme at the start of a text that is not empty. -/
def lexeme (c : Char) (cs : List Char) : TokenKind × List Char :=
  if Text.isBlank c then (.blank, c :: cs.takeWhile Text.isBlank)
  else if isNameStart c then (.name, nameLexeme (c :: cs))
  else if c = '.' ∧ ['.', '.'].isPrefixOf cs then (.ellipsis, ['.', '.', '.'])
  else if c = '[' ∧ cs.head? = some ']' then (.array, ['[', ']'])
  else if c = '*' then (.name, [c])
  else if c = '<' then (.less, [c])
  else if c = '>' then (.greater, [c])
  else if c = ',' then (.comma, [c])
  else if c = '|' then (.bar, [c])
  else if c = '(' then (.openParen, [c])
  else if c = ')' then (.closeParen, [c])
  else (.other, [c])

/-- The tokens of a text that starts at `position`, after `skip` characters of it that belong
to an earlier token. -/
def scan : (position skip : Nat) → List Char → List Token
  | _, _, [] => []
  | position, skip + 1, _ :: cs => scan (position + 1) skip cs
  | position, 0, c :: cs =>
    let (kind, text) := lexeme c cs
    ⟨kind, String.ofList text, position⟩ :: scan (position + 1) (text.length - 1) cs

/-- The tokens of a text. -/
def tokens (text : String) : List Token :=
  scan 0 0 text.toList

/-- Whether a text holds an ellipsis. -/
def hasEllipsis (text : String) : Bool :=
  (tokens text).any fun token => token.kind = .ellipsis

/-- Skipped characters only move the position on. -/
theorem scan_skip (position skip : Nat) (cs : List Char) (h : skip ≤ cs.length) :
    scan position skip cs = scan (position + skip) 0 (cs.drop skip) := by
  induction skip generalizing position cs with
  | zero => simp
  | succ skip ih =>
    cases cs with
    | nil => simp at h
    | cons c cs =>
      have h' : skip ≤ cs.length := by simpa using h
      have skipped : scan position (skip + 1) (c :: cs) = scan (position + 1) skip cs := rfl
      rw [skipped, ih (position + 1) cs h', List.drop_succ_cons, Nat.add_right_comm position 1 skip,
        Nat.add_assoc]

end Token
end AmbientDecl
