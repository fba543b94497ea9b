/- # Effective members

The members of a class together with the public ones that it inherits.  Each inherited member is
a copy for the class, and the nearest ancestor that has its key provides it.
-/

import AmbientDecl.Model.Members

namespace AmbientDecl

namespace Model

/-- The ancestors of a class from the nearest on; a class that comes again ends the list. -/
def ancestors (m : Model) : (room : Nat) → (seen : List ClassId) → ClassId → List ClassId
  | 0, _, _ => []
  | room + 1, seen, id =>
    match (m.classAt id).parent? with
    | none => []
    | some parent =>
      if seen.contains parent then [] else parent :: m.ancestors room (parent :: seen) parent

end Model

namespace Build

/-- Adds a copy of an inherited member where its key is not taken. -/
def inherit (id : ClassId) (members : List (String × Member)) (entry : String × Member) :
    Build (List (String × Member)) := do
  if entry.2.isPrivate || (Entries.get? entry.1 members).isSome then return members
  else return members ++ [(entry.1, ← copyMember entry.2 id)]

/-- Adds the members that an ancestor provides. -/
def inheritFrom (id : ClassId) (members : List (String × Member)) (ancestor : ClassId) :
    Build (List (String × Member)) := do
  ((← get).classAt ancestor).members.foldlM (inherit id) members

/-- The members of a class and the public ones that it inherits. -/
def effectiveMembers (id : ClassId) : Build (List (String × Member)) := do
  let m ← get
  (m.ancestors m.classes.length [id] id).foldlM (inheritFrom id) (m.classAt id).members

end Build
end AmbientDecl
