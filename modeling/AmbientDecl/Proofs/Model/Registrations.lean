/- # Runs of registrations

Classes come for registration one after the other.  When those of `calls` have come after those of
`before`, the classes of the first entries at their addresses are registered and the others are
reported (`Model.Takes`), whatever becomes of a single one (`Build.ends_register_takes`).  So the
calls that are answered by a class are the first ones at their addresses, and a model is
**registered** with them: its classes, its slots and its namespaces are theirs, what is found under
a name is found for ever, and the next class is refused just when one is found under its key
(`Build.exists_registered`).
-/

import AmbientDecl.Proofs.Model.Registry

namespace AmbientDecl

namespace ClassEntry

/-- The calls that were answered by a class. -/
def accepted (calls : List ClassEntry) (answers : List (Option ClassId)) : List ClassEntry :=
  ((calls.zip answers).filter fun answered => answered.2.isSome).map (·.1)

end ClassEntry

namespace Model

variable {m m' m'' : Model} {before calls more : List ClassEntry} {call : ClassEntry}

/-- What becomes of a model when the classes of `calls` come for registration after those of
`before`. -/
structure Takes (m : Model) (before calls : List ClassEntry) (m' : Model) : Prop where
  settings : m'.settings = m.settings
  lists : m'.Lists (Keyed.firsts (ClassEntry.address m.settings) (before ++ calls))
  /-- New classes have no members. -/
  classes : ∃ added, m'.classes = m.classes ++ added ∧ ∀ c ∈ added, c.members = []
  diagnostics : m'.diagnostics = m.diagnostics ++
    (Keyed.repeatsAfter (ClassEntry.address m.settings) (before.map (ClassEntry.address m.settings))
      calls).map fun call => .ofRepeat call.1

namespace Takes

theorem refl (h : m.Lists (Keyed.firsts (ClassEntry.address m.settings) before)) :
    m.Takes before [] m where
  settings := rfl
  lists := by rwa [List.append_nil]
  classes := ⟨[], (List.append_nil _).symm, by simp⟩
  diagnostics := by simp [Keyed.repeatsAfter]

theorem trans (h : m.Takes before calls m') (h' : m'.Takes (before ++ calls) more m'') :
    m.Takes before (calls ++ more) m'' where
  settings := h'.settings.trans h.settings
  lists := by
    rw [← List.append_assoc, ← h.settings]
    exact h'.lists
  classes := by
    obtain ⟨added, same, fresh⟩ := h.classes
    obtain ⟨added', same', fresh'⟩ := h'.classes
    refine ⟨added ++ added', ?_, List.forall_mem_append.2 ⟨fresh, fresh'⟩⟩
    rw [same', same, List.append_assoc]
  diagnostics := by
    rw [h'.diagnostics, h.diagnostics, h.settings, List.map_append, Keyed.repeatsAfter_append,
      List.map_append, List.append_assoc]

/-- A class at an address that is taken is reported. -/
theorem repeated (h : m.Lists (Keyed.firsts (ClassEntry.address m.settings) before))
    (taken : call.address m.settings ∈ before.map (ClassEntry.address m.settings)) :
    m.Takes before [call] { m with log := m.log ++ [.warning (.ofRepeat call.1)] } where
  settings := rfl
  lists := by
    rw [Keyed.firsts_concat, if_pos (Keyed.mem_keys_firsts.2 taken)]
    exact h.congr rfl rfl (List.forall₂_same.2 fun _ _ => rfl)
  classes := ⟨[], (List.append_nil _).symm, by simp⟩
  diagnostics := by
    rw [Model.diagnostics, LogEntry.diagnostics_append, Keyed.repeatsAfter, if_pos taken]
    rfl

/-- A class at an address that is free is registered. -/
theorem added {override : ClassOverride} {remark : String}
    (h : m.Lists (Keyed.firsts (ClassEntry.address m.settings) before))
    (free : call.address m.settings ∉ before.map (ClassEntry.address m.settings))
    (read : m.settings.overrideOf call.fullName = .ok override) :
    m.Takes before [call] (m.addEntry call override remark) where
  settings := rfl
  lists := by
    have new := fun mem => free (Keyed.mem_keys_firsts.1 mem)
    rw [Keyed.firsts_concat, if_neg new]
    exact h.addEntry new read
  classes := ⟨_, rfl, List.forall_mem_singleton.2 rfl⟩
  diagnostics := by
    rw [Model.diagnostics, addEntry, LogEntry.diagnostics_append, Keyed.repeatsAfter, if_neg free]
    rfl

/-- Members stay as they are. -/
theorem members_eq (h : m.Takes before calls m') (id : ClassId) :
    (m'.classAt id).members = (m.classAt id).members := by
  obtain ⟨added, same, fresh⟩ := h.classes
  rw [classAt, classAt, same, List.getD_eq_getElem?_getD, List.getD_eq_getElem?_getD]
  rcases Nat.lt_or_ge id m.classes.length with registered | beyond
  · rw [List.getElem?_append_left registered]
  · rw [List.getElem?_append_right beyond, List.getElem?_eq_none beyond]
    cases new : added[id - m.classes.length]? with
    | none => rfl
    | some c => exact fresh c (List.mem_of_getElem? new)

end Takes

end Model

namespace Build

open Model

variable {m : Model} {before : List ClassEntry}

/-- Registers classes one after the other and lists the answers. -/
def registerAll (calls : List ClassEntry) : Build (List (Option ClassId)) :=
  calls.mapM fun call => register call.1 (some call.2)

/-- **A class comes for registration.**  It is refused or gets the next number. -/
theorem ends_register_takes (h : m.Lists (Keyed.firsts (ClassEntry.address m.settings) before))
    (aliases : m.settings.namespaceAliases.isTextTable = true)
    (overrides : m.settings.classOverrides.isOverrideTable = true) (call : ClassEntry) :
    Ends (register call.1 (some call.2)) m (fun id? m' => m.Takes before [call] m' ∧
      id? = if call.address m.settings ∈ before.map (ClassEntry.address m.settings) then none
        else some m.classes.length) fun _ _ => False := by
  by_cases taken : call.address m.settings ∈ before.map (ClassEntry.address m.settings)
  · have known := Keyed.mem_keys_firsts.2 taken
    refine (ends_register_taken h aliases known (some call.2)).mono ?_ fun _ _ h => h
    rintro id? m' ⟨rfl, rfl⟩
    exact ⟨.repeated h taken, by rw [if_pos taken]⟩
  · have new := fun mem => taken (Keyed.mem_keys_firsts.1 mem)
    refine (ends_register_new h aliases overrides new).mono ?_ fun _ _ h => h
    rintro id? m' ⟨rfl, override, remark, read, rfl⟩
    exact ⟨.added h taken read, by rw [if_neg taken]⟩

/-- **Classes come for registration one after the other.**  Those at new addresses are accepted. -/
theorem ends_registerAll (aliases : m.settings.namespaceAliases.isTextTable = true)
    (overrides : m.settings.classOverrides.isOverrideTable = true)
    (h : m.Lists (Keyed.firsts (ClassEntry.address m.settings) before)) (calls : List ClassEntry) :
    Ends (registerAll calls) m (fun answers m' => m.Takes before calls m' ∧
      ClassEntry.accepted calls answers = Keyed.firstsAfter (ClassEntry.address m.settings)
        (before.map (ClassEntry.address m.settings)) calls) fun _ _ => False := by
  unfold registerAll
  induction calls generalizing m before with
  | nil => exact ⟨.refl h, rfl⟩
  | cons call rest ih =>
    rw [List.mapM_cons, ends_bind]
    refine (ends_register_takes h aliases overrides call).mono ?_ fun _ _ h => h
    rintro id? m₁ ⟨takes, answer⟩
    have aliases₁ : m₁.settings.namespaceAliases.isTextTable = true := by rwa [takes.settings]
    have overrides₁ : m₁.settings.classOverrides.isOverrideTable = true := by rwa [takes.settings]
    have lists : m₁.Lists (Keyed.firsts (ClassEntry.address m₁.settings) (before ++ [call])) := by
      rw [takes.settings]
      exact takes.lists
    rw [ends_bind]
    refine (ih aliases₁ overrides₁ lists).mono ?_ fun _ _ h => h
    rintro answers m₂ ⟨takes', accepted⟩
    refine ⟨takes.trans takes', ?_⟩
    rw [takes.settings, List.map_append, List.map_singleton] at accepted
    rw [Keyed.firstsAfter, ← accepted, answer]
    split
    · rfl
    · rfl

end Build

namespace Model

open Build

variable {m m' : Model} {before calls more : List ClassEntry}

/-- What holds of a model after a run of registrations in which the classes of `entries` were
accepted. -/
structure Registered (m : Model) (entries : List ClassEntry) : Prop where
  /-- The classes are those of the entries, in their order. -/
  classes : List.Forall₂ (MadeFor m.settings) entries m.classes
  /-- A class stands in one slot, under its simple name in its namespace. -/
  slot : ∀ id entry, entries[id]? = some entry → ∀ slot, m.inSlot? slot = some id ↔
    slot = ⟨Forest.path (m.settings.ownerName entry.1), Dotted.simpleName entry.1⟩
  home : ∀ entry ∈ entries, m.tree.contains (Forest.path (m.settings.ownerName entry.1)) = true
  occupied : ∀ slot id, m.inSlot? slot = some id → id < m.classes.length
  /-- What is found under a name is the class of the first entry with the address of the name. -/
  found : ∀ name, m.find? name =
    .ok (entries.findIdx? fun entry => entry.address m.settings == m.settings.address name)
  /-- A class that is found is found for ever. -/
  kept : ∀ more, ∃ answers m', (registerAll more).run m = .ok answers m' ∧
    ∀ name id, m.find? name = .ok (some id) →
      m'.find? name = .ok (some id) ∧ m'.classes[id]? = m.classes[id]?
  /-- Where a class is found, the next one is reported, and nothing else happens. -/
  refused : ∀ key record id, m.find? key = .ok (some id) → (register key (some record)).run m =
    .ok none { m with log := m.log ++ [.warning (.ofRepeat key)] }
  /-- Where no class is found, the next one gets the next number, and nothing is reported. -/
  next : ∀ key record, m.find? key = .ok none → ∃ m', (register key (some record)).run m =
    .ok (some m.classes.length) m' ∧ m'.diagnostics = m.diagnostics
  /-- The namespace of a name must be there when the name is looked up. -/
  missing : ∀ name, m.settings.ownerName name ≠ "" →
    (∀ entry ∈ entries, Dotted.isUnder (m.settings.ownerName entry.1) (m.settings.ownerName name) =
      false) → (lookup name).run m = .error (.missingNamespace name) m
  there : ∀ name, m.settings.ownerName name = "" ∨ (∃ entry ∈ entries,
    Dotted.isUnder (m.settings.ownerName entry.1) (m.settings.ownerName name) = true) →
      ∃ id?, (lookup name).run m = .ok id? m ∧ m.find? name = .ok id?

/-- A class that stands in a slot stands there for ever. -/
theorem Takes.inSlot?_of_some (h : m.Lists (Keyed.firsts (ClassEntry.address m.settings) before))
    (takes : m.Takes before calls m') {address : String × String} {id : ClassId}
    (found : m.inSlot? (.ofAddress address) = some id) :
    m'.inSlot? (.ofAddress address) = some id := by
  rw [h.inSlot?_eq] at found
  rw [takes.lists.inSlot?_eq, takes.settings, Keyed.firsts, Keyed.firstsAfter_append,
    List.findIdx?_append, ← Keyed.firsts, found]
  rfl

/-- **What a run of registrations leaves.** -/
theorem Lists.registered (h : m.Lists (Keyed.firsts (ClassEntry.address m.settings) calls))
    (aliases : m.settings.namespaceAliases.isTextTable = true)
    (overrides : m.settings.classOverrides.isOverrideTable = true) :
    m.Registered (Keyed.firsts (ClassEntry.address m.settings) calls) where
  classes := h.classes
  slot id entry here slot := by
    have registered : id < m.classes.length := by
      rw [h.length]
      exact (List.getElem?_eq_some_iff.1 here).1
    rw [inSlot?_eq_some_iff_of_nodup h.nodup_slots, (h.made here).slot]
    exact ⟨fun known => known.2.symm, fun same => ⟨registered, same.symm⟩⟩
  home entry mem := h.contains_home mem
  occupied slot id found := by
    obtain ⟨registered, -, -⟩ := List.findIdx?_eq_some_iff_getElem.1 found
    exact registered
  found := h.find?_eq aliases
  kept more := by
    obtain ⟨answers, m', run, takes, -⟩ := (ends_registerAll aliases overrides h more).exists_ok
    refine ⟨answers, m', run, fun name id found => ?_⟩
    have slotOf := Settings.slotOf_eq aliases name
    rw [find?, slotOf, Except.map, Except.ok.injEq] at found
    obtain ⟨added, same, -⟩ := takes.classes
    obtain ⟨registered, -, -⟩ := List.findIdx?_eq_some_iff_getElem.1 found
    refine ⟨?_, by rw [same, List.getElem?_append_left registered]⟩
    rw [find?, takes.settings, slotOf, Except.map, takes.inSlot?_of_some h found]
  refused key record id found := by
    have taken : m.settings.address key ∈ (Keyed.firsts (ClassEntry.address m.settings) calls).map
        (ClassEntry.address m.settings) := by
      by_contra free
      rw [(h.find?_eq_none_iff aliases key).2 free] at found
      cases found
    obtain ⟨id?, m', run, rfl, rfl⟩ := (ends_register_taken h aliases taken (some record)).exists_ok
    exact run
  next key record found := by
    have free : ClassEntry.address m.settings (key, record) ∉ (Keyed.firsts
        (ClassEntry.address m.settings) calls).map (ClassEntry.address m.settings) :=
      (h.find?_eq_none_iff aliases key).1 found
    obtain ⟨id?, m', run, rfl, override, remark, -, rfl⟩ :=
      (ends_register_new h aliases overrides free).exists_ok
    refine ⟨_, run, ?_⟩
    rw [Model.diagnostics, Model.addEntry, LogEntry.diagnostics_append]
    exact List.append_nil _
  missing name below away := by
    rw [run_lookup aliases, if_neg]
    rw [h.contains_owner_iff, not_or]
    refine ⟨below, ?_⟩
    rintro ⟨entry, mem, under⟩
    simp [away entry mem] at under
  there name above := by
    refine ⟨m.inSlot? (.ofAddress (m.settings.address name)), ?_, ?_⟩
    · rw [run_lookup aliases, if_pos ((h.contains_owner_iff name).2 above)]
    · rw [find?, Settings.slotOf_eq aliases, Except.map]

end Model

namespace Build

open Model

/-- **The registry after any run of registrations.**  It is registered with the classes that were
accepted; these are the first ones at their addresses, and each of the others is reported once. -/
theorem exists_registered {settings : Settings}
    (aliases : settings.namespaceAliases.isTextTable = true)
    (overrides : settings.classOverrides.isOverrideTable = true) (calls : List ClassEntry) :
    ∃ answers m, (registerAll calls).run (.empty settings) = .ok answers m ∧
      m.settings = settings ∧ m.Registered (ClassEntry.accepted calls answers) ∧
      ClassEntry.accepted calls answers = Keyed.firsts (ClassEntry.address settings) calls ∧
      m.diagnostics = (Keyed.repeats (ClassEntry.address settings) calls).map
        fun call => .ofRepeat call.1 := by
  have start : (Model.empty settings).Lists (Keyed.firsts (ClassEntry.address settings) []) :=
    .empty settings
  obtain ⟨answers, m, run, takes, accepted⟩ :=
    (ends_registerAll aliases overrides start calls).exists_ok
  have settled : m.settings = settings := takes.settings
  have lists : m.Lists (Keyed.firsts (ClassEntry.address m.settings) calls) := by
    rw [settled]
    exact takes.lists
  refine ⟨answers, m, run, settled, ?_, accepted, takes.diagnostics⟩
  have same : ClassEntry.accepted calls answers =
      Keyed.firsts (ClassEntry.address m.settings) calls := by rw [accepted, settled]; rfl
  rw [same]
  exact lists.registered (by rwa [settled]) (by rwa [settled])

/-- A class whose namespace has an alias is at the address of another one, and a third one stands
in a namespace below. -/
theorem exists_registered_aliased :
    let settings : Settings :=
      { Settings.blank with namespaceAliases := .obj [("DS", .str "Data")] }
    let calls : List ClassEntry :=
      [("Data.Store", .bare "Store"), ("DS.Store", .bare "DS.Store"),
        ("Data.A.B", .bare "Data.A.B")]
    settings.namespaceAliases.isTextTable = true ∧ settings.classOverrides.isOverrideTable = true ∧
    ∃ answers m, (registerAll calls).run (.empty settings) = .ok answers m ∧
      m.settings = settings ∧ m.Registered (ClassEntry.accepted calls answers) ∧
      ClassEntry.accepted calls answers = Keyed.firsts (ClassEntry.address settings) calls ∧
      m.diagnostics = (Keyed.repeats (ClassEntry.address settings) calls).map
        fun call => .ofRepeat call.1 :=
  ⟨by decide, by decide, exists_registered (by decide) (by decide) _⟩

end Build
end AmbientDecl
