/- # The registry

Every name has an **address**: the name of the namespace that owns it, with an alias resolved, and
its last segment.  A class that comes for registration has a key and a record, and the first one at
an address is registered.  A model **lists** such entries when its classes are made for them, in
their order and at different addresses, and its namespaces are those on the ways to them
(`Model.Lists`).

Registering a class does nothing but report it where an entry with its address is listed, and it
adds an entry anywhere else (`ends_register_taken`, `ends_register_new`).  What is found under a
name is the class of the entry with the address of the name (`Lists.find?_eq`), and a namespace is
missing when it is above no entry (`Lists.contains_owner_iff`).
-/

import AmbientDecl.Proofs.Dotted
import AmbientDecl.Proofs.Keyed
import AmbientDecl.Proofs.Model.Housed
import AmbientDecl.Proofs.Model.WellTyped

namespace AmbientDecl

namespace Slot

/-- The slot at an address. -/
def ofAddress (address : String × String) : Slot := ⟨Forest.path address.1, address.2⟩

theorem ofAddress_injective : Function.Injective ofAddress := by
  rintro address address' same
  obtain ⟨home, name⟩ := Slot.mk.inj same
  exact Prod.ext (Forest.path_injective home) name

end Slot

namespace Settings

variable {settings : Settings}

/-- The name of the namespace that owns a name, with an alias resolved. -/
def ownerName (settings : Settings) (name : String) : String :=
  ((ownerOf settings.namespaceAliases name).toOption.bind Json.text?).getD ""

/-- Where a class of this name is registered. -/
def address (settings : Settings) (name : String) : String × String :=
  (settings.ownerName name, Dotted.simpleName name)

theorem ownerOf_eq (aliases : settings.namespaceAliases.isTextTable = true) (name : String) :
    ownerOf settings.namespaceAliases name = .ok (.str (settings.ownerName name)) := by
  obtain ⟨text, found⟩ := exists_substitute aliases (Dotted.owner name)
  have owner : ownerOf settings.namespaceAliases name = .ok (.str text) := found
  rw [ownerName, owner]
  rfl

theorem slotOf_eq (aliases : settings.namespaceAliases.isTextTable = true) (name : String) :
    settings.slotOf name = .ok (.ofAddress (settings.address name)) := by
  rw [slotOf, ownerOf_eq aliases]
  rfl

end Settings

/-- The key and the record of a class that comes for registration. -/
abbrev ClassEntry := String × ClassRecord

namespace ClassEntry

/-- The full name of the class. -/
def fullName (entry : ClassEntry) : String := entry.2.name?.getD entry.1

/-- Where the class is registered. -/
def address (settings : Settings) (entry : ClassEntry) : String × String :=
  settings.address entry.1

end ClassEntry

/-- The report of a class whose address is taken. -/
def Diagnostic.ofRepeat (key : String) : Diagnostic :=
  ⟨duplicateClass, "Class already exists; name=" ++ key, key⟩

namespace Model

variable {m m' : Model} {entries : List ClassEntry} {entry : ClassEntry} {key name : String}
  {id : ClassId}

/-- The class is made for the entry, and members may have been added to it. -/
def MadeFor (settings : Settings) (entry : ClassEntry) (c : Class) : Prop :=
  ∃ override, settings.overrideOf entry.fullName = .ok override ∧
    c = { newClass settings (.ofAddress (entry.address settings)) entry.fullName entry.2
            override with members := c.members }

/-- The classes are those of the entries, and the namespaces those on the ways to them. -/
structure Lists (m : Model) (entries : List ClassEntry) : Prop where
  classes : List.Forall₂ (MadeFor m.settings) entries m.classes
  nodup : (entries.map (ClassEntry.address m.settings)).Nodup
  tree : ∀ path, m.tree.contains path = true ↔
    path = [] ∨ ∃ entry ∈ entries, path <+: Forest.path (m.settings.ownerName entry.1)

theorem MadeFor.slot {settings : Settings} {c : Class} (h : MadeFor settings entry c) :
    c.slot = .ofAddress (entry.address settings) := by
  obtain ⟨override, -, made⟩ := h
  rw [made]
  rfl

theorem MadeFor.fullName {settings : Settings} {c : Class} (h : MadeFor settings entry c) :
    c.fullName = entry.fullName := by
  obtain ⟨override, -, made⟩ := h
  rw [made]
  rfl

theorem MadeFor.record {settings : Settings} {c : Class} (h : MadeFor settings entry c) :
    c.record = entry.2 := by
  obtain ⟨override, -, made⟩ := h
  rw [made]
  rfl

namespace Lists

theorem empty (settings : Settings) : (Model.empty settings).Lists [] where
  classes := .nil
  nodup := List.nodup_nil
  tree path := by simp [Model.empty, Forest.contains_nil]

theorem length (h : m.Lists entries) : m.classes.length = entries.length :=
  h.classes.length_eq.symm

/-- Members can be added to the classes. -/
theorem congr (h : m.Lists entries) (settings : m'.settings = m.settings)
    (tree : m'.tree = m.tree)
    (classes : List.Forall₂ (fun c c' => c' = { c with members := c'.members })
      m.classes m'.classes) : m'.Lists entries where
  classes := by
    rw [settings]
    refine List.forall₂_iff_get.2 ⟨h.length.symm.trans classes.length_eq, fun i here here' => ?_⟩
    have bound : i < m.classes.length := h.length ▸ here
    obtain ⟨override, read, made⟩ := (List.forall₂_iff_get.1 h.classes).2 i here bound
    have same := (List.forall₂_iff_get.1 classes).2 i bound here'
    refine ⟨override, read, ?_⟩
    rw [same, made]
  nodup := by
    rw [settings]
    exact h.nodup
  tree := by
    rw [settings, tree]
    exact h.tree

theorem slots (h : m.Lists entries) :
    m.slots = entries.map fun entry => .ofAddress (entry.address m.settings) := by
  have same : List.Forall₂ Eq (entries.map fun entry => Slot.ofAddress (entry.address m.settings))
      m.slots := by
    refine List.forall₂_map_left_iff.2 (List.forall₂_map_right_iff.2 (h.classes.imp ?_))
    exact fun entry c made => made.slot.symm
  exact (List.forall₂_eq_eq_eq ▸ same).symm

/-- The class with a number is made for the entry in its place. -/
theorem made (h : m.Lists entries) (here : entries[id]? = some entry) :
    MadeFor m.settings entry (m.classAt id) := by
  obtain ⟨bound, rfl⟩ := List.getElem?_eq_some_iff.1 here
  have registered : id < m.classes.length := h.length ▸ bound
  rw [classAt_eq_getElem registered]
  exact (List.forall₂_iff_get.1 h.classes).2 id bound registered

theorem nodup_slots (h : m.Lists entries) : m.slots.Nodup := by
  have same : m.slots = (entries.map (ClassEntry.address m.settings)).map Slot.ofAddress := by
    rw [h.slots, List.map_map]
    rfl
  rw [same]
  exact h.nodup.map Slot.ofAddress_injective

/-- **What stands in a slot** is the class of the entry with the address of the slot. -/
theorem inSlot?_eq (h : m.Lists entries) (address : String × String) :
    m.inSlot? (.ofAddress address) =
      entries.findIdx? fun entry => entry.address m.settings == address := by
  have bySlot : m.inSlot? (.ofAddress address) =
      m.slots.findIdx? fun slot => slot == Slot.ofAddress address := by
    rw [Model.slots, List.findIdx?_map]
    rfl
  rw [bySlot, h.slots, List.findIdx?_map]
  congr 1
  funext entry
  exact Bool.eq_iff_iff.2 (by simp [Slot.ofAddress_injective.eq_iff])

theorem inSlot?_eq_none_iff (h : m.Lists entries) (address : String × String) :
    m.inSlot? (.ofAddress address) = none ↔
      address ∉ entries.map (ClassEntry.address m.settings) := by
  rw [h.inSlot?_eq, List.findIdx?_eq_none_iff, List.mem_map]
  simp

/-- **What is found under a name** is the class of the entry with the address of the name. -/
theorem find?_eq (h : m.Lists entries) (aliases : m.settings.namespaceAliases.isTextTable = true)
    (name : String) : m.find? name =
      .ok (entries.findIdx? fun entry => entry.address m.settings == m.settings.address name) := by
  rw [find?, Settings.slotOf_eq aliases, Except.map, h.inSlot?_eq]

/-- Nothing is found under a name whose address is free. -/
theorem find?_eq_none_iff (h : m.Lists entries)
    (aliases : m.settings.namespaceAliases.isTextTable = true) (name : String) :
    m.find? name = .ok none ↔
      m.settings.address name ∉ entries.map (ClassEntry.address m.settings) := by
  rw [← h.inSlot?_eq_none_iff, find?, Settings.slotOf_eq aliases, Except.map, Except.ok.injEq]

/-- **A namespace that owns a name is there** when it is the root, or its name or one under it owns
an entry. -/
theorem contains_owner_iff (h : m.Lists entries) (name : String) :
    m.tree.contains (Forest.path (m.settings.ownerName name)) = true ↔
      m.settings.ownerName name = "" ∨ ∃ entry ∈ entries,
        Dotted.isUnder (m.settings.ownerName entry.1) (m.settings.ownerName name) := by
  rw [h.tree, Forest.path_eq_nil_iff]
  simp only [Forest.path_isPrefix_iff]
  constructor
  · rintro (root | ⟨entry, mem, root | under⟩)
    · exact .inl root
    · exact .inl root
    · exact .inr ⟨entry, mem, under⟩
  · rintro (root | ⟨entry, mem, under⟩)
    · exact .inl root
    · exact .inr ⟨entry, mem, .inr under⟩

/-- The namespace of an entry is there. -/
theorem contains_home (h : m.Lists entries) (mem : entry ∈ entries) :
    m.tree.contains (Forest.path (m.settings.ownerName entry.1)) = true :=
  (h.tree _).2 (.inr ⟨entry, mem, List.prefix_rfl⟩)

end Lists

/-- The model after the class of one more entry is registered. -/
def addEntry (m : Model) (entry : ClassEntry) (override : ClassOverride) (remark : String) :
    Model :=
  { m with
    tree := m.tree.insert (Forest.path (m.settings.ownerName entry.1))
    classes := m.classes ++ [newClass m.settings (.ofAddress (entry.address m.settings))
      entry.fullName entry.2 override]
    log := m.log ++ [.debug remark] }

/-- **One more entry is listed** where its address is free. -/
theorem Lists.addEntry {override : ClassOverride} {remark : String} (h : m.Lists entries)
    (free : entry.address m.settings ∉ entries.map (ClassEntry.address m.settings))
    (read : m.settings.overrideOf entry.fullName = .ok override) :
    (m.addEntry entry override remark).Lists (entries ++ [entry]) where
  classes := by
    refine List.rel_append (R := MadeFor m.settings) h.classes (.cons ?_ .nil)
    exact ⟨override, read, rfl⟩
  nodup := by
    have settings : (m.addEntry entry override remark).settings = m.settings := rfl
    rw [settings, List.map_append, List.map_singleton, List.nodup_append]
    refine ⟨h.nodup, List.nodup_singleton _, fun address mem address' new same => free ?_⟩
    rw [← List.mem_singleton.1 new, ← same]
    exact mem
  tree path := by
    have settings : (m.addEntry entry override remark).settings = m.settings := rfl
    have tree : (m.addEntry entry override remark).tree =
        m.tree.insert (Forest.path (m.settings.ownerName entry.1)) := rfl
    rw [tree, settings, Forest.contains_insert, Bool.or_eq_true, List.isPrefixOf_iff_prefix,
      h.tree, or_assoc]
    simp only [List.mem_append, List.mem_singleton, or_and_right, exists_or, exists_eq_left]

end Model

namespace Build

open Model

variable {m : Model} {entries : List ClassEntry} {entry : ClassEntry} {key name : String}

/-- A class is looked up in the namespace that owns its name, which must be there. -/
theorem run_lookup (aliases : m.settings.namespaceAliases.isTextTable = true) (name : String) :
    (lookup name).run m =
      if m.tree.contains (Forest.path (m.settings.ownerName name)) then
        .ok (m.inSlot? (.ofAddress (m.settings.address name))) m
      else .error (.missingNamespace name) m := by
  have begun : (lookup name).run m = EStateM.run
      (if m.tree.contains (Forest.path (m.settings.ownerName name)) = true then
        pure (m.inSlot? (.ofAddress (m.settings.address name)))
      else throw (.missingNamespace name) : Build (Option ClassId)) m := by
    unfold lookup
    rw [EStateM.run_bind, EStateM.run_get]
    dsimp only
    rw [Settings.slotOf_eq aliases]
    rfl
  rw [begun]
  split
  · rfl
  · rfl

/-- A class whose address is taken is reported, and nothing else happens. -/
theorem ends_register_taken (h : m.Lists entries)
    (aliases : m.settings.namespaceAliases.isTextTable = true)
    (taken : m.settings.address key ∈ entries.map (ClassEntry.address m.settings))
    (record? : Option ClassRecord) :
    Ends (register key record?) m (fun id? m' => id? = none ∧
      m' = { m with log := m.log ++ [.warning (.ofRepeat key)] }) fun _ _ => False := by
  obtain ⟨other, mem, same⟩ := List.mem_map.1 taken
  have there : m.tree.contains (Forest.path (m.settings.ownerName key)) = true := by
    have owner : m.settings.ownerName other.1 = m.settings.ownerName key :=
      congrArg Prod.fst same
    rw [← owner]
    exact h.contains_home mem
  have occupied : m.inSlot? (.ofAddress (m.settings.address key)) ≠ none := fun free =>
    (h.inSlot?_eq_none_iff _).1 free taken
  unfold register
  rw [ends_bind, ends_get]
  dsimp only
  rw [Settings.slotOf_eq aliases, ofReading, ends_bind, ends_pure, ends_bind, ends_modify,
    ends_bind, ends_get]
  have tree : m.tree.insert (Slot.ofAddress (m.settings.address key)).home = m.tree :=
    Forest.insert_of_contains there
  rw [tree, if_pos (Option.isSome_iff_ne_none.2 occupied), ends_bind, ends_warn, ends_pure]
  exact ⟨rfl, rfl⟩

/-- A class whose address is free is registered. -/
theorem ends_register_new (h : m.Lists entries)
    (aliases : m.settings.namespaceAliases.isTextTable = true)
    (overrides : m.settings.classOverrides.isOverrideTable = true)
    (free : entry.address m.settings ∉ entries.map (ClassEntry.address m.settings)) :
    Ends (register entry.1 (some entry.2)) m (fun id? m' => id? = some m.classes.length ∧
      ∃ override remark, m.settings.overrideOf entry.fullName = .ok override ∧
        m' = m.addEntry entry override remark) fun _ _ => False := by
  obtain ⟨override, read⟩ := Settings.exists_overrideOf overrides entry.fullName
  unfold register
  rw [ends_bind, ends_get]
  dsimp only
  rw [Settings.slotOf_eq aliases, ofReading, ends_bind, ends_pure, ends_bind, ends_modify,
    ends_bind, ends_get]
  have vacant (tree : Forest) :
      ({ m with tree } : Model).inSlot? (.ofAddress (m.settings.address entry.1)) = none :=
    (h.inSlot?_eq_none_iff _).2 free
  rw [vacant]
  dsimp only [Option.isSome_none]
  rw [if_neg Bool.false_ne_true, orFault, ends_bind, ends_pure]
  have named : entry.2.name?.getD entry.1 = entry.fullName := rfl
  rw [named, read, ofReading, ends_bind, ends_pure, Settings.ownerOf_eq aliases, ofReading]
  unfold addClass
  rw [ends_bind, ends_bind, ends_get, ends_bind, ends_set, ends_pure, ends_bind, ends_pure,
    ends_bind, ends_note, ends_pure]
  exact ⟨rfl, override, _, rfl, rfl⟩

end Build
end AmbientDecl
