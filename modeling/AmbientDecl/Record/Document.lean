/- # Documents

A document holds class records by name and a list of items.  A record that is absent or empty in
any way is the empty record.
-/

import AmbientDecl.Record.Item

namespace AmbientDecl

/-- The documentation of a library. -/
structure Document where
  /-- The records by name, each `none` for a value without fields; `none` when the classes are
  given by a value without members. -/
  classes? : Option (List (String × Option ClassRecord))
  /-- The items, or `none` for a value without elements. -/
  items? : Option (List ItemEntry)
  deriving Inhabited

namespace Document

/-- The record of a class in a document. -/
def readRecord (value : Json) : Option ClassRecord :=
  if value.isTruthy then ClassRecord.ofJson? value else some (ClassRecord.ofFields [])

/-- The records in a field. -/
def readClasses? (value : Json) : Option (List (String × Option ClassRecord)) :=
  value.table?.map fun members => members.map fun (name, record) => (name, readRecord record)

/-- The items in a field. -/
def readItems? (value : Json) : Option (List ItemEntry) :=
  value.list?.map fun items => items.map ItemEntry.ofJson

/-- The document with the given fields. -/
def ofFields (fields : List (String × Json)) : Document where
  classes? := readClasses? (Json.field fields "classes")
  items? := readItems? (Json.field fields "classitems")

end Document
end AmbientDecl
