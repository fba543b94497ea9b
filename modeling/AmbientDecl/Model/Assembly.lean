/- # From a document to classes with members

The classes of a document are registered in their order, then the items are attached to their
classes, then the additional classes of the settings are registered.  What lies under an ignored
name is left out.
-/

import AmbientDecl.Model.Members

namespace AmbientDecl
namespace Build

/-- Whether a member of a deprecated class is not deprecated itself. -/
def warnOfDeprecation (id : ClassId) (member : Member) : Build Unit := do
  let c := (← get).classAt id
  if c.record.notice.deprecated && !member.item.notice.deprecated then
    warn Diagnostic.deprecatedMember
      ("Parent deprecated but item isn't; parent=" ++ c.fullName ++ ", method=" ++
        member.item.name) c.fullName
  else pure ()

/-- Builds the member for an item and adds it to its class. -/
def attachMember (id : ClassId) (item : Item) : Build (Option Member) := do
  let member ← buildMember item id
  if ← addMember id member then
    warnOfDeprecation id member
    return some member
  else return none

/-- Attaches what an item says to the class of its name. -/
def attachOwned (className : String) (content : ItemContent) : Build (Option Member) := do
  match ← lookup className with
  | none =>
    warn Diagnostic.unknownClass ("Klass not found for " ++ className) className
    return none
  | some id =>
    match content with
    | .skipped => return none
    | .unfitKind => throw (.shape .unfit)
    | .member item => attachMember id item

/-- Attaches an item to its class; the answer is the new member, if there is one. -/
def attach (entry : ItemEntry) : Build (Option Member) := do
  match entry with
  | .noRecord => throw (.shape .noFields)
  | .unfitOwner owner =>
    if ← ofReading ((← get).settings.ignores owner) then return none
    else throw (.shape .noFields)
  | .ownerless shownName =>
    note (.debug ("Skipping item without a class; name=" ++ shownName))
    return none
  | .owned className content =>
    if ← ofReading ((← get).settings.ignores (.str className)) then return none
    else attachOwned className content

/-- Registers the class of a record unless its name is ignored. -/
def registerEntry (entry : String × Option ClassRecord) : Build Unit := do
  if ← ofReading ((← get).settings.ignores (.str entry.1)) then pure ()
  else discard (register entry.1 entry.2)

/-- Attaches an item and counts the members attached so far. -/
def attachCounting (attached : Nat) (entry : ItemEntry) : Build Nat := do
  let member? ← attach entry
  return if member?.isSome then attached + 1 else attached

/-- Registers a class of the settings. -/
def registerAdditional (name : Json) : Build Unit :=
  match name with
  | .str name => discard (register name (some (ClassRecord.bare name)))
  | _ => throw (.shape .noFields)

/-- Builds the classes of a document. -/
def assemble (document : Document) : Build Unit := do
  let classes ← orFault .noFields document.classes?
  classes.forM registerEntry
  let items ← orFault .unfit document.items?
  let attached ← items.foldlM attachCounting 0
  let additional ← ofReading (Settings.readList (← get).settings.additionalClasses)
  additional.forM registerAdditional
  note (.info ("Registered " ++ toString (← get).classes.length ++ " classes and " ++
    toString attached ++ " members"))

end Build
end AmbientDecl
