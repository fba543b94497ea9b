/- # The model of a run

A run builds classes with their members from the records of a document and links them to each
other.  A class is known by its number, its place in the order of registration.  It stands in a
**slot**, a namespace and a simple name, and no two classes share a slot.  A member belongs to the
class that declares it or to which it was copied.

Names and types of parameters and members are texts, unless a table of the configuration puts
another value in their place, which is shown as a text where it is written.

Building and linking are actions on the model that may stop with an error; what was done before
the error stays done.
-/

import AmbientDecl.Config.Settings
import AmbientDecl.Diagnostic
import AmbientDecl.Namespaces
import AmbientDecl.Record.Document

namespace AmbientDecl

/-- The number of a class in the order of registration. -/
abbrev ClassId := Nat

/-- A parameter of a method. -/
structure Param where
  name : Json
  type : Json
  isRest : Bool
  isOptional : Bool
  deriving Inhabited

/-- A member of a class. -/
structure Member where
  item : Item
  owner : ClassId
  /-- A private member that a mixin requires becomes public. -/
  isPrivate : Bool
  type : Json
  params : List Param
  returnType : Option Json
  deriving Inhabited

namespace Member

/-- The key of a member: the static and the instance member of one name never collide. -/
def keyOf (isStatic : Bool) (name : String) : String :=
  if isStatic then "static:" ++ name else name

/-- The key under which a member is stored. -/
def key (member : Member) : String :=
  keyOf member.item.isStatic member.item.name

/-- The key of the static factory of a class. -/
def createKey : String := keyOf true "create"

/-- Whether a member is called. -/
def isMethod (member : Member) : Bool :=
  member.item.kind == .method

/-- The position of the first rest parameter. -/
def restIndex? (member : Member) : Option Nat :=
  member.params.findIdx? Param.isRest

end Member

/-- How far the linking of a class has come. -/
inductive Progress where
  | unresolved
  | resolving
  | resolved
  deriving DecidableEq, Inhabited

/-- The word for a progress. -/
def Progress.label : Progress → String
  | unresolved => "unresolved"
  | resolving => "resolving"
  | resolved => "resolved"

/-- A type that a class implements. -/
inductive TypeRef where
  /-- A class of the model. -/
  | linked (id : ClassId)
  /-- A type known by its text alone. -/
  | named (text : String)
  deriving DecidableEq, Inhabited

namespace TypeRef

/-- The class of the model that a reference names. -/
def target? : TypeRef → Option ClassId
  | linked id => some id
  | named _ => none

end TypeRef

/-- A namespace and a simple name in it. -/
structure Slot where
  home : List String
  name : String
  deriving DecidableEq, Inhabited

/-- A documented class, or a namespace documented as if it were one. -/
structure Class where
  slot : Slot
  fullName : String
  record : ClassRecord
  /-- Whether the target language defines the class. -/
  isBuiltIn : Bool
  generics : Json
  parent? : Option ClassId
  implemented : List TypeRef
  members : List (String × Member)
  progress : Progress
  /-- Whether a namespace has the full name of the class. -/
  isNamespace : Bool
  deriving Inhabited

namespace Class

/-- The last segment of the key under which the class was registered. -/
def name (c : Class) : String := c.slot.name

/-- Whether the class takes part in inheritance by its own record. -/
def isTrueClass (c : Class) : Bool := c.record.isTrueClass

/-- Whether the members of the class stand in the block of a namespace. -/
def isPlainNamespace (c : Class) : Bool := c.isNamespace && !c.isTrueClass

end Class

/-- The state of a run. -/
structure Model where
  settings : Settings
  tree : Forest
  classes : List Class
  /-- The unreadable types that have been reported. -/
  reported : List String
  log : List LogEntry
  deriving Inhabited

namespace Model

/-- The model before anything is registered. -/
def empty (settings : Settings) : Model := ⟨settings, .nil, [], [], []⟩

/-- The diagnostics recorded so far. -/
def diagnostics (m : Model) : List Diagnostic := LogEntry.diagnostics m.log

/-- The class with a number. -/
def classAt (m : Model) (id : ClassId) : Class := m.classes.getD id default

/-- The full name of a class. -/
def fullName (m : Model) (id : ClassId) : String := (m.classAt id).fullName

/-- The numbers of all classes, in the order of registration. -/
def classIds (m : Model) : List ClassId := List.range m.classes.length

/-- The model with one class changed. -/
def modifyClass (m : Model) (id : ClassId) (change : Class → Class) : Model :=
  { m with classes := m.classes.modify id change }

@[simp] theorem length_classes_modifyClass (m : Model) (id : ClassId) (change : Class → Class) :
    (m.modifyClass id change).classes.length = m.classes.length := by
  simp [modifyClass]

/-- A change of one class is seen at its number and nowhere else. -/
theorem classAt_modifyClass (m : Model) (id other : ClassId) (change : Class → Class)
    (h : id < m.classes.length) :
    (m.modifyClass id change).classAt other =
      if id = other then change (m.classAt other) else m.classAt other := by
  by_cases ho : id = other
  · subst ho
    simp [classAt, modifyClass, List.getD_eq_getElem?_getD, h]
  · simp [classAt, modifyClass, List.getD_eq_getElem?_getD, ho]

end Model

/-- What stops a run. -/
inductive BuildError where
  /-- An item is no method and has parameters. -/
  | paramsOnProperty (name : String)
  /-- A name that must be found lies in no namespace. -/
  | missingNamespace (name : String)
  /-- A class extends itself at some distance; the chain ends with the class it starts with. -/
  | cycle (chain : List String)
  /-- A class is being resolved, but not by the present pass. -/
  | abandonedClass
  /-- A value has the wrong type. -/
  | shape (fault : ShapeFault)
  deriving DecidableEq

namespace BuildError

/-- Whether an error is one of the documentation and not of the type of a value. -/
def isFinding : BuildError → Bool
  | paramsOnProperty _ => true
  | missingNamespace _ => true
  | cycle _ => true
  | abandonedClass => false
  | shape _ => false

/-- The message of a finding. -/
def message : BuildError → String
  | paramsOnProperty name => "Not a method but has params; name=" ++ name ++ ", type=property"
  | missingNamespace name => "No namespace found; name=" ++ name
  | cycle chain => "Cyclic inheritance; chain=" ++ " -> ".intercalate chain
  | abandonedClass => ""
  | shape _ => ""

end BuildError

/-- An action on the model. -/
abbrev Build := EStateM BuildError Model

namespace Build

/-- Adds an entry to the log. -/
def note (entry : LogEntry) : Build Unit :=
  modify fun m => { m with log := m.log ++ [entry] }

/-- Records a diagnostic. -/
def warn (code message subject : String) : Build Unit :=
  note (.warning ⟨code, message, subject⟩)

/-- Changes one class. -/
def modifyClass (id : ClassId) (change : Class → Class) : Build Unit :=
  modify fun m => m.modifyClass id change

@[simp] theorem run_modifyClass (id : ClassId) (change : Class → Class) (m : Model) :
    (modifyClass id change).run m = .ok () (m.modifyClass id change) := rfl

/-- The value of a reading, or its fault as an error. -/
def ofReading {α : Type} : Except ShapeFault α → Build α
  | .ok value => pure value
  | .error fault => throw (.shape fault)

/-- The value of an action, or the error that stopped it; what was done before stays done. -/
def attempt {α : Type} (action : Build α) : Build (Except BuildError α) :=
  tryCatch (Except.ok <$> action) fun error => pure (.error error)

/-- The value of an option, or a fault where there is none. -/
def orFault {α : Type} (fault : ShapeFault) : Option α → Build α
  | some value => pure value
  | none => throw (.shape fault)

end Build
end AmbientDecl
