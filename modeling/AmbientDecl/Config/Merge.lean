/- # Merging configurations

A configuration is merged over another one key by key.  A key keeps the place it has in the
base, and new keys follow in their order.

* Two objects under one key are merged in the same way, at every depth.
* Two lists under an **additive** key are joined: the list of the base, then those elements of
  the update that are alike to no element before them.
* Otherwise the value of the update replaces the value of the base.
-/

import AmbientDecl.Json.Basic

namespace AmbientDecl
namespace Config

/-- The keys whose lists extend the base instead of replacing it. -/
def additiveKeys : List String :=
  ["ignore_prefixes", "additional_classes", "built_in_types"]

/-- The list with those of `items` added, in order, that are alike to nothing before them. -/
def appendNew (list items : List Json) : List Json :=
  items.foldl (fun list item => if list.any (Json.alike item) then list else list ++ [item]) list

mutual

/-- The value under `key` where the base holds `old` and the update the given value. -/
def mergeValue (key : String) (old : Option Json) : Json → Json
  | .obj update =>
    match old with
    | some (.obj base) => .obj (merge base update)
    | _ => .obj update
  | .arr update =>
    match old with
    | some (.arr base) => if key ∈ additiveKeys then .arr (appendNew base update) else .arr update
    | _ => .arr update
  | value => value

/-- The base with the members of the update merged over it. -/
def merge (base : List (String × Json)) : List (String × Json) → List (String × Json)
  | [] => base
  | (key, value) :: rest =>
    merge (Entries.put key (mergeValue key (Entries.get? key base) value) base) rest

end

end Config
end AmbientDecl
