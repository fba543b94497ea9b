/- # Building members

A member is built from its item for a class: the types are lowered as seen from that class, and
the static factory `create` returns the class.  A member is copied to another class by building
it again there.

A type that cannot be read is reported once for each text in a run.
-/

import AmbientDecl.Model.Reference
import AmbientDecl.TypeExpr.Written

namespace AmbientDecl
namespace Build

/-- Reports an unreadable type, the first time that its text comes. -/
def reportUnreadable (error : TypeExpr.SyntaxError) (subject : String) : Build Unit := do
  let m ← get
  if m.reported.contains error.text then return ()
  else
    set { m with reported := m.reported ++ [error.text] }
    warn Diagnostic.unparseableType
      ("Can't parse type annotation; type=" ++ Text.quoted error.text ++
        ", error=" ++ error.message)
      subject

/-- The lowered type for a text, with names written in a given way. -/
def lowerWith (naming : TypeExpr.Naming) (text subject : String) : Build Json := do
  let written := WrittenType.ofText text
  match written with
  | .unreadable error => reportUnreadable error subject
  | _ => pure ()
  ofReading (written.lower naming)

/-- The lowered type for a text inside the class named `base`. -/
def lowerType (text base : String) : Build Json := do
  lowerWith ((← get).naming base) text base

/-- The lowered type of a text that may be missing. -/
def lowerType? (text? : Option String) (missing base : String) : Build Json :=
  match text? with
  | some text => lowerType text base
  | none => pure (.str missing)

/-- The parameter for a record, inside the class named `base`. -/
def buildParam (base : String) (reading : Except ShapeFault ParamRecord) : Build Param := do
  let record ← ofReading reading
  let name ← ofReading (Settings.substitute (← get).settings.reservedNames record.name)
  let type? ← ofReading record.type?
  let type ← lowerType? type? "any" base
  return ⟨name, type, record.isRest type?, record.isOptional⟩

/-- The parameters of an item, inside the class named `base`; only a method can have any. -/
def buildParams (item : Item) (base : String) : Build (List Param) :=
  match item.params with
  | .absent => pure []
  | .list records =>
    match item.kind with
    | .method => records.mapM (buildParam base)
    | .property => throw (.paramsOnProperty item.name)
  | .unfit =>
    match item.kind with
    | .method => throw (.shape .unfit)
    | .property => throw (.paramsOnProperty item.name)

/-- The type that a member returns when its item does not say. -/
def impliedReturn (item : Item) (className : String) : Option String :=
  if item.isStatic && item.name == "create" then some className
  else match item.kind with
    | .method => some "any"
    | .property => none

/-- The type that a member returns, inside a class. -/
def buildReturn (item : Item) (className base : String) : Build (Option Json) :=
  match item.result with
  | .undocumented => pure ((impliedReturn item className).map .str)
  | .untyped => pure (some (.str "void"))
  | .typed text => some <$> lowerType text base

/-- The member for an item in a class. -/
def buildMember (item : Item) (owner : ClassId) : Build Member := do
  let c := (← get).classAt owner
  let type ← lowerType? item.type? "any" c.fullName
  let params ← buildParams item c.fullName
  let returnType ← buildReturn item c.name c.fullName
  return ⟨item, owner, item.isPrivate, type, params, returnType⟩

/-- The copy of a member for another class. -/
def copyMember (member : Member) (owner : ClassId) : Build Member := do
  let copy ← buildMember member.item owner
  return { copy with isPrivate := member.isPrivate }

/-- Stores a member in a class under its key. -/
def putMember (id : ClassId) (key : String) (member : Member) : Build Unit :=
  modifyClass id fun c => { c with members := Entries.put key member c.members }

/-- Adds a member to a class; a key that is taken keeps its member, and the new one is
reported. -/
def addMember (id : ClassId) (member : Member) : Build Bool := do
  let c := (← get).classAt id
  if (Entries.get? member.key c.members).isSome then
    warn Diagnostic.duplicateMember
      ("Duplicate item for klass; klass=" ++ c.fullName ++ ", item=" ++ member.key) c.fullName
    return false
  else
    putMember id member.key member
    return true

end Build
end AmbientDecl
