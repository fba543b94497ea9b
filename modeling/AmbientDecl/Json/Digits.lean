/- # Long integers

An integer of any length is a value, but a value may be refused for an integer that has more
decimal digits than a limit allows.  The sign is no digit.

The integers of a value come in **levels**: those that stand in a list or an object come before
those that stand in the lists and objects inside it.
-/

import AmbientDecl.Json.Basic

namespace AmbientDecl
namespace Json

/-- The number of decimal digits of an integer. -/
def digitCount (n : Int) : Nat :=
  (Nat.toDigits 10 n.natAbs).length

/-- The levels of two values that stand side by side. -/
def besideLevels : List (List Int) → List (List Int) → List (List Int)
  | [], ys => ys
  | xs, [] => xs
  | x :: xs, y :: ys => (x ++ y) :: besideLevels xs ys

mutual

/-- The integers of a value, level by level. -/
def levels : Json → List (List Int)
  | int n => [[n]]
  | arr items => [] :: levelsOf items
  | obj members => [] :: levelsUnder members
  | _ => []

/-- The integers of the elements of a list, level by level. -/
def levelsOf : List Json → List (List Int)
  | [] => []
  | item :: rest => besideLevels (levels item) (levelsOf rest)

/-- The integers of the members of an object, level by level. -/
def levelsUnder : List (String × Json) → List (List Int)
  | [] => []
  | (_, value) :: rest => besideLevels (levels value) (levelsUnder rest)

end

/-- The integers of a value, those of the outer levels first. -/
def integers (value : Json) : List Int :=
  value.levels.flatten

/-- The number of digits of the first integer that has more than `limit`. -/
def longInteger? (limit : Nat) (value : Json) : Option Nat :=
  (value.integers.map digitCount).find? (limit < ·)

end Json
end AmbientDecl
