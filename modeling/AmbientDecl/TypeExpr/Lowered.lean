/- # Lowered types

A type expression is lowered to a type of the target language.

* A name is replaced by its reference, and a name that stands alone by its alias.
* The arguments of a generic type and the branches of a union are joined by `|`: the comma and
  the bar mean the same in documentation.
* The element of an array goes into parentheses when it has several branches.
* A variadic type is lowered to the type it repeats; the mark belongs to the parameter.

The **branches** of a text are its parts between the bars that stand outside all brackets.  A
closing bracket too many makes the depth negative, where a bar does not part either.

References and aliases come from the configuration and need not be texts.  Only texts can be
joined; a list is parted at its elements in the way a text is parted at its characters; other
values have no branches.
-/

import AmbientDecl.Fault
import AmbientDecl.Json.Loose
import AmbientDecl.Text.Pieces
import AmbientDecl.TypeExpr.Basic

namespace AmbientDecl
namespace TypeText

/-- What a piece of a text is for its branches. -/
inductive Mark where
  | opening
  | closing
  | bar
  | plain
  deriving DecidableEq

/-- The depth after a piece. -/
def Mark.depthAfter (depth : Int) : Mark → Int
  | opening => depth + 1
  | closing => depth - 1
  | bar => depth
  | plain => depth

/-- The brackets that open. -/
def openers : List Char := ['<', '(', '\x7b', '[']

/-- The brackets that close. -/
def closers : List Char := ['>', ')', '\x7d', ']']

/-- What a character is for the branches of a text. -/
def markOf (c : Char) : Mark :=
  if c ∈ openers then .opening
  else if c ∈ closers then .closing
  else if c = '|' then .bar
  else .plain

/-- What a text is for the branches of a list: like a bracket are the texts that occur in the row
of brackets of a kind, the empty text too. -/
def wordMarkOf (word : String) : Mark :=
  if Text.occursIn word.toList openers then .opening
  else if Text.occursIn word.toList closers then .closing
  else if word = "|" then .bar
  else .plain

/-- The parts between the bars outside all brackets, from a depth on. -/
def split {α : Type} (mark : α → Mark) (depth : Int) : List α → List (List α)
  | [] => [[]]
  | x :: xs =>
    if mark x = .bar ∧ depth = 0 then [] :: split mark depth xs
    else (split mark ((mark x).depthAfter depth) xs).modifyHead (x :: ·)

theorem split_ne_nil {α : Type} (mark : α → Mark) (depth : Int) (xs : List α) :
    split mark depth xs ≠ [] := by
  induction xs generalizing depth with
  | nil => simp [split]
  | cons x xs ih =>
    unfold split
    split
    · simp
    · simpa [List.modifyHead_eq_nil_iff] using ih _

/-- The parts and the bars between them are the whole, where one piece alone is a bar. -/
theorem intercalate_split {α : Type} (mark : α → Mark) (bar : α)
    (h : ∀ x, mark x = .bar → x = bar) (depth : Int) (xs : List α) :
    List.intercalate [bar] (split mark depth xs) = xs := by
  induction xs generalizing depth with
  | nil => simp [split]
  | cons x xs ih =>
    unfold split
    split
    · rename_i hx
      cases hs : split mark depth xs with
      | nil => exact absurd hs (split_ne_nil mark depth xs)
      | cons head rest => simpa [hs, h x hx.1] using ih depth
    · have ih' := ih ((mark x).depthAfter depth)
      cases hs : split mark ((mark x).depthAfter depth) xs with
      | nil => exact absurd hs (split_ne_nil mark _ xs)
      | cons head rest => cases rest <;> simp_all [List.modifyHead]

/-- The branches of a text. -/
def branches (text : String) : List String :=
  (split markOf 0 text.toList).map String.ofList

/-- The branches of a value that stands in the place of a type. -/
def branchesOf? : Json → Option (List Json)
  | .str text => some ((branches text).map .str)
  | .arr items =>
    (items.mapM Json.text?).map fun words =>
      (split wordMarkOf 0 words).map fun branch => .arr (branch.map .str)
  | _ => none

@[simp] theorem branchesOf?_str (text : String) :
    branchesOf? (.str text) = some ((branches text).map .str) := rfl

end TypeText

namespace TypeExpr

/-- How names are written in a lowered type. -/
structure Naming where
  /-- What stands for a name that is alone. -/
  alone : String → Except ShapeFault Json
  /-- What stands for a name with arguments. -/
  withArguments : String → Except ShapeFault Json

/-- Types joined by bars. -/
def joined (types : List Json) : Except ShapeFault String :=
  ShapeFault.required .unfit (Json.join? "|" types)

/-- The text of an array with elements of a type. -/
def arrayOf (element : Json) : Except ShapeFault String := do
  let branches ← ShapeFault.required .unfit (TypeText.branchesOf? element)
  return if 1 < branches.length then "(" ++ element.display ++ ")[]" else element.display ++ "[]"

mutual

/-- The type of the target language for a type expression. -/
def lower (naming : Naming) : TypeExpr → Except ShapeFault Json
  | name n => naming.alone n
  | generic base args => do
    let arguments ← joined (← lowerAll naming args)
    let reference ← naming.withArguments base
    return .str (reference.display ++ "<" ++ arguments ++ ">")
  | union branches => do return .str (← joined (← lowerAll naming branches))
  | array element => do return .str (← arrayOf (← lower naming element))
  | variadic inner => lower naming inner

/-- The types for several expressions. -/
def lowerAll (naming : Naming) : List TypeExpr → Except ShapeFault (List Json)
  | [] => .ok []
  | e :: rest => do
    let type ← lower naming e
    return type :: (← lowerAll naming rest)

end

end TypeExpr
end AmbientDecl
