/- # Class records

What the documentation says of a class.  A class that extends or uses another is surely a class;
other records may describe a namespace as if it were one.
-/

import AmbientDecl.Json.Loose

namespace AmbientDecl

/-- What is common to the documentation of classes and of members. -/
structure Notice where
  description : String
  deprecated : Bool
  /-- What to do instead of using a deprecated thing. -/
  deprecation : String
  deriving DecidableEq, Inhabited

/-- The notice of a record. -/
def Notice.ofFields (fields : List (String × Json)) : Notice where
  description := (Json.field fields "description").textOrEmpty
  deprecated := (Json.field fields "deprecated").isTruthy
  deprecation := (Json.field fields "deprecationMessage").textOrEmpty

/-- Whether a record is marked as private. -/
def isMarkedPrivate (fields : List (String × Json)) : Bool :=
  Json.field fields "access" matches .str "private"

/-- The documentation of a class. -/
structure ClassRecord where
  /-- The full name, where it differs from the key of the record. -/
  name? : Option String
  /-- The name of the class that this one extends. -/
  parentName? : Option String
  /-- The names of the classes that are mixed in, or `none` for a value without elements. -/
  usedNames? : Option (List String)
  /-- Whether the class extends a class of the language in place. -/
  isMixin : Bool
  isPrivate : Bool
  notice : Notice
  deriving DecidableEq, Inhabited

namespace ClassRecord

/-- The names in a field of a record: none in an absent field. -/
def readNames? (value : Json) : Option (List String) :=
  value.list?.map fun items => items.map Json.display

/-- The record with the given fields. -/
def ofFields (fields : List (String × Json)) : ClassRecord where
  name? := (Json.field fields "name").present?.map Json.display
  parentName? := (Json.field fields "extends").present?.map Json.display
  usedNames? := readNames? (Json.field fields "uses")
  isMixin := (Json.field fields "extension_for").isTruthy
  isPrivate := isMarkedPrivate fields
  notice := .ofFields fields

/-- The record that a value holds, if it has fields. -/
def ofJson? : Json → Option ClassRecord
  | .obj fields => some (ofFields fields)
  | _ => none

/-- The record of a class of which nothing is said but its name. -/
def bare (name : String) : ClassRecord :=
  ofFields [("name", .str name)]

/-- A record that extends or uses a class describes a class and no namespace. -/
def isTrueClass (record : ClassRecord) : Bool :=
  record.parentName?.isSome || record.usedNames? != some []

end ClassRecord
end AmbientDecl
