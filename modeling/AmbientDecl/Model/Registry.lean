/- # Registering and finding classes

A full name leads to a slot: the path before its last dot, or the path that this one is an alias
of, and the last segment.  An alias that counts as absent leads to the root.  The first class
registered in a slot keeps it.
-/

import AmbientDecl.Model.Basic

namespace AmbientDecl

namespace Settings

/-- The dotted name of the namespace that owns a full name, with an alias resolved. -/
def ownerOf (aliases : Json) (fullName : String) : Except ShapeFault Json :=
  substitute aliases (Dotted.owner fullName)

/-- The path of the namespace with a dotted name. -/
def readPath : Json → Except ShapeFault (List String)
  | .str name => .ok (Forest.path name)
  | value => if value.isTruthy then .error .noFields else .ok []

/-- The slot that a full name leads to. -/
def slotOf (settings : Settings) (fullName : String) : Except ShapeFault Slot := do
  let owner ← ownerOf settings.namespaceAliases fullName
  return ⟨← readPath owner, Dotted.simpleName fullName⟩

end Settings

namespace Model

/-- The class in a slot. -/
def inSlot? (m : Model) (slot : Slot) : Option ClassId :=
  m.classes.findIdx? fun c => c.slot == slot

/-- The class that a full name leads to. -/
def find? (m : Model) (fullName : String) : Except ShapeFault (Option ClassId) :=
  (m.settings.slotOf fullName).map m.inSlot?

/-- The class for a record with a name, before it is linked. -/
def newClass (settings : Settings) (slot : Slot) (fullName : String) (record : ClassRecord)
    (override : ClassOverride) : Class where
  slot
  fullName
  record
  isBuiltIn := settings.builtInTypes.contains fullName
  generics := override.generics
  parent? := none
  implemented := override.implemented.map .named
  members := []
  progress := .unresolved
  isNamespace := false

end Model

namespace Build

/-- Finds the class that a full name leads to; the namespace that owns the name must exist. -/
def lookup (fullName : String) : Build (Option ClassId) := do
  let m ← get
  let slot ← ofReading (m.settings.slotOf fullName)
  if m.tree.contains slot.home then return m.inSlot? slot
  else throw (.missingNamespace fullName)

/-- Adds a class at the end of the registered ones. -/
def addClass (c : Class) : Build ClassId := do
  let m ← get
  set { m with classes := m.classes ++ [c] }
  return m.classes.length

/-- Registers a class under a key and creates the namespaces on its path.  In a slot that is
taken, the class is reported and left out. -/
def register (key : String) (record? : Option ClassRecord) : Build (Option ClassId) := do
  let settings := (← get).settings
  let slot ← ofReading (settings.slotOf key)
  modify fun m => { m with tree := m.tree.insert slot.home }
  if ((← get).inSlot? slot).isSome then
    warn Diagnostic.duplicateClass ("Class already exists; name=" ++ key) key
    return none
  else
    let record ← orFault .noFields record?
    let fullName := record.name?.getD key
    let override ← ofReading (settings.overrideOf fullName)
    let id ← addClass (Model.newClass settings slot fullName record override)
    let owner ← ofReading (Settings.ownerOf settings.namespaceAliases key)
    note (.debug ("Registered class " ++ fullName ++ " in namespace " ++ owner.spelled))
    return some id

end Build
end AmbientDecl
