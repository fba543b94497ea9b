/- # JSON values

The values of configurations and documentation records: numbers are integers, and an object
keeps its members in the order in which they were written.

Two values are **alike** when they are equal up to the order of object members, with `true`
alike to `1` and `false` to `0` at every depth.  Likeness decides which elements of a list count
as repeats when configurations are merged.
-/

import AmbientDecl.Entries

namespace AmbientDecl

/-- A JSON value with ordered members and integer numbers. -/
inductive Json where
  | null
  | bool (value : Bool)
  | int (value : Int)
  | str (text : String)
  | arr (items : List Json)
  | obj (members : List (String × Json))
  deriving Inhabited

namespace Json

/-- The number that a truth value is alike to. -/
def boolNumber (b : Bool) : Int :=
  if b then 1 else 0

mutual

/-- Whether two values are alike. -/
def alike : Json → Json → Bool
  | null, null => true
  | bool a, bool b => a == b
  | bool a, int b => boolNumber a == b
  | int a, bool b => a == boolNumber b
  | int a, int b => a == b
  | str a, str b => a == b
  | arr a, arr b => itemsAlike a b
  | obj a, obj b => a.length == b.length && membersAlike a b
  | _, _ => false

/-- Whether two lists are alike element by element. -/
def itemsAlike : List Json → List Json → Bool
  | [], [] => true
  | a :: as, b :: bs => alike a b && itemsAlike as bs
  | _, _ => false

/-- Whether every member of the first object has an alike member of its name in the second. -/
def membersAlike : List (String × Json) → List (String × Json) → Bool
  | [], _ => true
  | (key, a) :: rest, others =>
    (match Entries.get? key others with
      | some b => alike a b
      | none => false) && membersAlike rest others

end

/-- The value of a member of an object. -/
def member? (key : String) : Json → Option Json
  | obj members => Entries.get? key members
  | _ => none

end Json
end AmbientDecl
