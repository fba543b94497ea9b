/- # What becomes of an item

An item that names a class of the document is meant to be a member of that class, if it is a member
at all (`ItemEntry.claim?`).  The first item with a key becomes the member of its class under that
key, and every later one is reported.  So every item has one **fate**, which depends on the items
before it, and one list of reports that its fate gives (`ItemEntry.fate`, `Fate.Told`); types that
cannot be read are reported besides, but only of an item that is built.
-/

import AmbientDecl.Proofs.Model.Registry

namespace AmbientDecl

namespace Settings

variable (settings : Settings) (entries : List ClassEntry) (name : String)

/-- The class that a name leads to among those of the entries. -/
def classOf? : Option ClassId :=
  entries.findIdx? fun entry => entry.address settings == settings.address name

/-- Whether the namespace that owns a name is there for one of the entries. -/
def hasHome : Bool :=
  settings.ownerName name == "" || entries.any fun entry =>
    Dotted.isUnder (settings.ownerName entry.1) (settings.ownerName name)

end Settings

namespace Item

/-- The key of the member that an item makes. -/
def key (item : Item) : String := Member.keyOf item.isStatic item.name

/-- Whether an item is no method and has parameters all the same. -/
def isMisplaced (item : Item) : Bool :=
  item.kind == .property && !(item.params matches .absent)

/-- Whether every parameter of an item is a record with a text for its type, if any. -/
def isReadable (item : Item) : Bool :=
  match item.params with
  | .absent => true
  | .list readings =>
    readings.all fun reading => reading.toOption.any fun record => record.type?.isOk
  | .unfit => false

theorem isMisplaced_iff {item : Item} :
    item.isMisplaced = true ↔ item.kind = .property ∧ item.params ≠ .absent := by
  unfold isMisplaced
  cases item.params <;> simp

end Item

/-- The class with one more member. -/
def Class.withMember (c : Class) (member : Member) : Class :=
  { c with members := c.members ++ [(member.key, member)] }

namespace Diagnostic

/-- The report of an item whose key is taken in its class. -/
def ofDuplicate (fullName : String) (item : Item) : Diagnostic :=
  ⟨duplicateMember, "Duplicate item for klass; klass=" ++ fullName ++ ", item=" ++ item.key,
    fullName⟩

/-- The report of a member that is not deprecated although its class is. -/
def ofDeprecation (fullName : String) (item : Item) : Diagnostic :=
  ⟨deprecatedMember, "Parent deprecated but item isn't; parent=" ++ fullName ++ ", method=" ++
    item.name, fullName⟩

/-- The report of an item whose class is not there. -/
def ofUnknown (className : String) : Diagnostic :=
  ⟨unknownClass, "Klass not found for " ++ className, className⟩

end Diagnostic

/-- What becomes of an item in a run that it does not stop. -/
inductive Fate where
  | skipped
  | unknown (className : String)
  | duplicate (owner : ClassEntry) (item : Item)
  | attached (owner : ClassEntry) (item : Item)

namespace Fate

/-- The reports that belong to a fate. -/
def reports : Fate → List Diagnostic
  | skipped => []
  | unknown className => [.ofUnknown className]
  | duplicate owner item => [.ofDuplicate owner.fullName item]
  | attached owner item =>
    if owner.2.notice.deprecated && !item.notice.deprecated then
      [.ofDeprecation owner.fullName item]
    else []

/-- Whether a member is built for the item. -/
def isBuilt : Fate → Bool
  | skipped => false
  | unknown _ => false
  | duplicate _ _ => true
  | attached _ _ => true

/-- What is reported of an item: types that cannot be read, if a member is built, and then what
belongs to its fate. -/
def Told (fate : Fate) (reports : List Diagnostic) : Prop :=
  ∃ types : List Diagnostic, reports = types ++ fate.reports ∧
    ∀ d ∈ types, d.code = Diagnostic.unparseableType ∧ fate.isBuilt = true

end Fate

namespace ItemEntry

variable (settings : Settings) (entries : List ClassEntry)

/-- The member that an item is meant to be, and the class to which it belongs. -/
def claim? : ItemEntry → Option (ClassId × Item)
  | .owned className (.member item) =>
    if settings.omits className then none
    else (settings.classOf? entries className).map fun id => (id, item)
  | _ => none

/-- The error with which an item stops a run. -/
def error? : ItemEntry → Option BuildError
  | .owned className content =>
    if settings.omits className then none
    else if settings.hasHome entries className then
      ((ItemEntry.owned className content).claim? settings entries).bind fun claim =>
        if claim.2.isMisplaced then some (.paramsOnProperty claim.2.name) else none
    else some (.missingNamespace className)
  | _ => none

/-- The items that are meant to be members of a class. -/
def claimsOn (id : ClassId) (items : List ItemEntry) : List Item :=
  items.filterMap fun entry =>
    (entry.claim? settings entries).bind fun claim => if claim.1 = id then some claim.2 else none

/-- What becomes of an item that comes after the items of `before`. -/
def fate (before : List ItemEntry) : ItemEntry → Fate
  | .owned className content =>
    if settings.omits className then .skipped
    else
      match settings.classOf? entries className, content with
      | none, _ => .unknown className
      | some id, .member item =>
        if item.key ∈ (claimsOn settings entries id before).map Item.key then
          .duplicate (entries.getD id default) item
        else .attached (entries.getD id default) item
      | some _, _ => .skipped
  | _ => .skipped

/-- What becomes of items that come one after the other. -/
def fates (before : List ItemEntry) : List ItemEntry → List Fate
  | [] => []
  | entry :: rest => fate settings entries before entry :: fates (before ++ [entry]) rest

variable {settings entries} {before items : List ItemEntry} {entry : ItemEntry}

theorem claim?_of_omitted {className : String} {content : ItemContent}
    (h : settings.omits className = true) :
    (ItemEntry.owned className content).claim? settings entries = none := by
  cases content <;> simp [claim?, h]

theorem claim?_of_unknown {className : String} {content : ItemContent}
    (h : settings.classOf? entries className = none) :
    (ItemEntry.owned className content).claim? settings entries = none := by
  cases content <;> simp [claim?, h]

/-- What becomes of an item that is meant to be a member depends on its key. -/
theorem fate_of_claim {id : ClassId} {item : Item}
    (h : entry.claim? settings entries = some (id, item)) : entry.fate settings entries before =
      if item.key ∈ (claimsOn settings entries id before).map Item.key then
        .duplicate (entries.getD id default) item
      else .attached (entries.getD id default) item := by
  unfold claim? at h
  split at h
  · rename_i className member
    split at h
    · cases h
    · rename_i kept
      obtain ⟨found, there, same⟩ := Option.map_eq_some_iff.1 h
      obtain ⟨rfl, rfl⟩ := Prod.mk.inj same
      simp only [fate, if_neg kept, there]
  · cases h

theorem fates_concat : fates settings entries before (items ++ [entry]) =
    fates settings entries before items ++ [fate settings entries (before ++ items) entry] := by
  induction items generalizing before with
  | nil => simp [fates]
  | cons first rest ih => simp [fates, ih]

/-- An item that is no member claims nothing. -/
theorem claimsOn_concat_of_none (h : entry.claim? settings entries = none) (id : ClassId) :
    claimsOn settings entries id (items ++ [entry]) = claimsOn settings entries id items := by
  simp [claimsOn, h]

theorem claimsOn_concat {id : ClassId} {item : Item}
    (h : entry.claim? settings entries = some (id, item)) (other : ClassId) :
    claimsOn settings entries other (items ++ [entry]) =
      if id = other then claimsOn settings entries other items ++ [item]
      else claimsOn settings entries other items := by
  by_cases same : id = other <;> simp [claimsOn, h, same]

/-- Whether an item has the form that the documentation of a library gives it. -/
def isWellTyped : ItemEntry → Bool
  | .noRecord => false
  | .unfitOwner _ => false
  | .ownerless _ => true
  | .owned _ .skipped => true
  | .owned _ .unfitKind => false
  | .owned _ (.member item) => item.isReadable

end ItemEntry

end AmbientDecl
