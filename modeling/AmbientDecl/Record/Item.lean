/- # Item records

What the documentation says of a member of a class.  Methods, properties and events with a name
are members, and an event is a method; all other items are skipped.  A fault in the types or
parameters of an item is kept in its place, because it comes to light only after what stands
before it has been used.
-/

import AmbientDecl.Fault
import AmbientDecl.Record.Class
import AmbientDecl.TypeExpr.Token

namespace AmbientDecl

/-- Whether a member is called or read. -/
inductive MemberKind where
  | method
  | property
  deriving DecidableEq, Inhabited

/-- The word for a kind of member. -/
def MemberKind.label : MemberKind → String
  | method => "method"
  | property => "property"

/-- The documentation of a parameter. -/
structure ParamRecord where
  /-- The name, without the star that marks a rest parameter. -/
  name : String
  /-- Whether a star follows the name. -/
  isStarred : Bool
  /-- The text of the type, if there is one; a present value that is no text is a fault. -/
  type? : Except ShapeFault (Option String)
  isOptional : Bool
  deriving Inhabited

/-- The parameters of an item. -/
inductive ParamList where
  /-- The item has no such field. -/
  | absent
  /-- The field has these elements, each a parameter or a fault. -/
  | list (params : List (Except ShapeFault ParamRecord))
  /-- The field has a value without elements. -/
  | unfit
  deriving Inhabited

/-- What an item says of its result. -/
inductive ResultRecord where
  | undocumented
  | untyped
  | typed (type : String)
  deriving DecidableEq, Inhabited

/-- The documentation of a member. -/
structure Item where
  name : String
  kind : MemberKind
  isStatic : Bool
  isPrivate : Bool
  notice : Notice
  type? : Option String
  params : ParamList
  result : ResultRecord
  deriving Inhabited

/-- What an item says of itself. -/
inductive ItemContent where
  /-- The item has no name, or its kind is none of a member. -/
  | skipped
  /-- The kind is a value that cannot be compared with the kinds of members. -/
  | unfitKind
  | member (item : Item)
  deriving Inhabited

/-- An element of the list of items. -/
inductive ItemEntry where
  /-- The element is no record. -/
  | noRecord
  /-- The item belongs to no class; the text shows its name. -/
  | ownerless (shownName : String)
  /-- The owner is given by a value that is no name. -/
  | unfitOwner (owner : Json)
  | owned (className : String) (content : ItemContent)
  deriving Inhabited

namespace ParamRecord

/-- The type in a field. -/
def readType? (value : Json) : Except ShapeFault (Option String) :=
  if value.isTruthy then (ShapeFault.required .unfit value.text?).map some else .ok none

/-- The parameter that a record describes. -/
def ofFields (fields : List (String × Json)) : ParamRecord :=
  let shown := (Json.field fields "name").textOrEmpty
  let isStarred := shown.toList.getLast? == some '*'
  { name := if isStarred then String.ofList shown.toList.dropLast else shown
    isStarred
    type? := readType? (Json.field fields "type")
    isOptional := (Json.field fields "optional").isTruthy }

/-- The parameter that an element of the list describes. -/
def ofJson : Json → Except ShapeFault ParamRecord
  | .obj fields => .ok (ofFields fields)
  | _ => .error .noFields

/-- Whether a parameter with the given type is a rest parameter: a star after the name or an
ellipsis in the type marks it. -/
def isRest (record : ParamRecord) (type? : Option String) : Bool :=
  record.isStarred || type?.any Token.hasEllipsis

end ParamRecord

namespace Item

/-- The parameters in a field. -/
def readParams : Json → ParamList
  | .null => .absent
  | value =>
    match value.elements? with
    | some items => .list (items.map ParamRecord.ofJson)
    | none => .unfit

/-- The result in a field. -/
def readResult : Json → ResultRecord
  | .obj fields =>
    let type := Json.field fields "type"
    if type.isTruthy then .typed type.display else .untyped
  | _ => .undocumented

/-- The item of a kind with the given fields. -/
def ofFields (kind : MemberKind) (fields : List (String × Json)) : Item where
  name := (Json.field fields "name").display
  kind
  isStatic := (Json.field fields "static").isTruthy
  isPrivate := isMarkedPrivate fields
  notice := .ofFields fields
  type? := (Json.field fields "type").present?.map Json.display
  params := readParams (Json.field fields "params")
  result := readResult (Json.field fields "return")

end Item

namespace ItemContent

/-- What the fields of an item say. -/
def ofFields (fields : List (String × Json)) : ItemContent :=
  if !(Json.field fields "name").isTruthy then .skipped
  else
    match Json.field fields "itemtype" with
    | .str "method" => .member (.ofFields .method fields)
    | .str "event" => .member (.ofFields .method fields)
    | .str "property" => .member (.ofFields .property fields)
    | .arr _ => .unfitKind
    | .obj _ => .unfitKind
    | _ => .skipped

end ItemContent

namespace ItemEntry

/-- The item that a value holds. -/
def ofJson : Json → ItemEntry
  | .obj fields =>
    let owner := Json.field fields "class"
    if owner.isTruthy then
      match owner with
      | .str className => .owned className (.ofFields fields)
      | _ => .unfitOwner owner
    else .ownerless (Json.field fields "name").display
  | _ => .noRecord

end ItemEntry
end AmbientDecl
