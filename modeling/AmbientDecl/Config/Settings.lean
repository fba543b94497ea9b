/- # Settings of a run

What a run reads from its configuration.  A configuration is written by hand, and its tables and
lists may hold, or be, values of any type.

* A table or list that counts as absent is empty.
* What a table puts in the place of a name need not be a text.  It is kept as it is and shown as a
  text where one is written.
* The names of built-in types are read before the run.  All other tables and lists are read when
  they are used, so a value of the wrong type is a fault only where it is needed.
-/

import AmbientDecl.Dotted
import AmbientDecl.Fault
import AmbientDecl.Json.Loose
import AmbientDecl.Text.Pieces

namespace AmbientDecl

/-- What a run reads from its configuration. -/
structure Settings where
  /-- A table of the paths of namespaces and the paths that they stand for. -/
  namespaceAliases : Json
  /-- A table of names with one fixed reference. -/
  fixedReferences : Json
  /-- Names that the target language defines. -/
  builtInTypes : List String
  /-- A table of the names of types and what they are lowered to. -/
  typeAliases : Json
  /-- A list of names that are left out, with all names under them. -/
  ignoredNames : Json
  /-- A list of the classes registered after the document. -/
  additionalClasses : Json
  /-- A table of generic parameters and implemented types by class. -/
  classOverrides : Json
  /-- A table of parameter names that the target language reserves, with their substitutes. -/
  reservedNames : Json
  /-- The name that the file exports. -/
  exportName : String
  deriving Inhabited

/-- Generic parameters and implemented types of one class. -/
structure ClassOverride where
  generics : Json
  implemented : List String
  deriving Inhabited

/-- The override of a class without one. -/
def ClassOverride.empty : ClassOverride := ⟨.null, []⟩

namespace Settings

/-- The elements of a list. -/
def readList (value : Json) : Except ShapeFault (List Json) :=
  ShapeFault.required .unfit value.list?

/-- The name that an element of a set of names is, if it is one; a value with elements cannot be
in a set. -/
def readName? : Json → Except ShapeFault (Option String)
  | .str name => .ok (some name)
  | .arr _ => .error .unfit
  | .obj _ => .error .unfit
  | _ => .ok none

/-- The names in a set of names. -/
def readNames (value : Json) : Except ShapeFault (List String) := do
  let names ← (← readList value).mapM readName?
  return names.filterMap id

/-- The settings of a configuration. -/
def ofConfig (config : List (String × Json)) : Except ShapeFault Settings := do
  let field := Json.field config
  let builtInTypes ← readNames (field "built_in_types")
  return {
    builtInTypes
    namespaceAliases := field "namespace_aliases"
    fixedReferences := field "relative_name_overrides"
    typeAliases := field "type_aliases"
    ignoredNames := field "ignore_prefixes"
    additionalClasses := field "additional_classes"
    classOverrides := field "class_overrides"
    reservedNames := field "reserved_param_names"
    exportName := ((Entries.get? "export_default" config).getD (.str "Ember")).display }

/-- The entry of a table under a key. -/
def valueAt? (table : Json) (key : String) : Except ShapeFault (Option Json) := do
  return Entries.get? key (← ShapeFault.required .noFields table.table?)

/-- What a table puts in the place of a name: its entry, or the name itself. -/
def substitute (table : Json) (name : String) : Except ShapeFault Json := do
  return (← valueAt? table name).getD (.str name)

/-- What a table of aliases puts in the place of a reference.  A reference that is no text has no
alias, and one that has elements cannot be looked up. -/
def aliasOf (aliases reference : Json) : Except ShapeFault Json := do
  let members ← ShapeFault.required .noFields aliases.table?
  match reference with
  | .str name => return (Entries.get? name members).getD reference
  | .arr _ => throw .unfit
  | .obj _ => throw .unfit
  | _ => return reference

/-- The fixed reference of a name.  Where a list or a text stands for the table, a name that
occurs in it has no reference that could be read. -/
def fixedReference? (table : Json) (name : String) : Except ShapeFault (Option Json) :=
  if table.isTruthy then
    match table with
    | .obj members => .ok (Entries.get? name members)
    | .arr items => if items.any (Json.alike (.str name)) then .error .unfit else .ok none
    | .str text => if Text.occursIn name.toList text.toList then .error .unfit else .ok none
    | _ => .error .unfit
  else .ok none

@[simp] theorem fixedReference?_obj (members : List (String × Json)) (name : String) :
    fixedReference? (.obj members) name = .ok (Entries.get? name members) := by
  cases members <;> simp [fixedReference?, Json.isTruthy]

/-- Whether a name is left out on account of an ignored name: it is that name or lies under it.
A value that is no text is no name, but names can lie under what it is shown as. -/
def isUnder (name : String) : Json → Bool
  | .str ignored => Dotted.isUnder name ignored
  | value => Dotted.continues name value.display

/-- Whether a value in the place of a name is left out.  A value that is no text may be alike to the
first ignored name; whether it lies under that name cannot be said. -/
def leavesOut (ignored : List Json) : Json → Except ShapeFault Bool
  | .str name => .ok (ignored.any (isUnder name))
  | value =>
    match ignored with
    | [] => .ok false
    | first :: _ => if Json.alike value first then .ok true else .error .noFields

/-- Whether a value in the place of a name is left out in a run. -/
def ignores (settings : Settings) (value : Json) : Except ShapeFault Bool := do
  leavesOut (← readList settings.ignoredNames) value

@[simp] theorem leavesOut_str (ignored : List Json) (name : String) :
    leavesOut ignored (.str name) = .ok (ignored.any (isUnder name)) := rfl

/-- The override of a class, read from its table. -/
def overrideOf (settings : Settings) (fullName : String) : Except ShapeFault ClassOverride := do
  match ← valueAt? settings.classOverrides fullName with
  | none => return .empty
  | some override =>
    let members ← ShapeFault.required .noFields override.table?
    let implemented ← readList (Json.field members "implements")
    return ⟨Json.field members "generics", implemented.map Json.display⟩

end Settings
end AmbientDecl
