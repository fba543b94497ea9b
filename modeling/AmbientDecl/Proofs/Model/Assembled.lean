/- # Assembled models

The classes of a document are registered and get their members before any of them is linked.  A
model is **unlinked** when its members are sound, no class has a parent, classes implement only
types that are known by their text, and the linking of no class has begun.  Every step of the
assembly keeps a model unlinked, so that is what the assembly ends with (`ends_assemble`).
-/

import AmbientDecl.Model.Assembly
import AmbientDecl.Proofs.Model.Consistent

namespace AmbientDecl

/-- The settings in which every table is empty. -/
def Settings.blank : Settings where
  namespaceAliases := .obj []
  fixedReferences := .obj []
  builtInTypes := []
  typeAliases := .obj []
  ignoredNames := .arr []
  additionalClasses := .arr []
  classOverrides := .obj []
  reservedNames := .obj []
  exportName := "Library"

namespace Model

variable {m m' : Model} {id : ClassId}

/-- No class has been linked, and the members are sound. -/
structure Unlinked (m : Model) : Prop where
  sound : m.Sound
  unresolved : ∀ id, m.IsUnresolved id
  parent : ∀ id, (m.classAt id).parent? = none
  named : ∀ id other, .linked other ∉ (m.classAt id).implemented

theorem unlinked_empty (settings : Settings) : (empty settings).Unlinked where
  sound := ⟨fun _ _ mem => absurd mem List.not_mem_nil, fun _ => List.nodup_nil⟩
  unresolved _ := rfl
  parent _ := rfl
  named _ _ mem := absurd mem List.not_mem_nil

theorem Unlinked.congr (h : m.Unlinked) (settings : m'.settings = m.settings)
    (classes : m'.classes = m.classes) : m'.Unlinked := by
  have same : ∀ id, m'.classAt id = m.classAt id := fun id => by rw [classAt, classes, classAt]
  refine ⟨⟨fun id entry mem => ?_, fun id => ?_⟩, fun id => ?_, fun id => ?_, fun id other => ?_⟩
  · rw [same] at mem
    exact (h.sound.entry id entry mem).congr settings (by rw [same])
  · rw [same]
    exact h.sound.nodup id
  · rw [IsUnresolved, same]
    exact h.unresolved id
  · rw [same]
    exact h.parent id
  · rw [same]
    exact h.named id other

/-- A model in which no class has been linked is consistent. -/
theorem Unlinked.consistent {origin : Origin} (h : m.Unlinked) :
    Consistent origin m where
  sound := h.sound
  parent id := .inl (h.parent id)
  mixins id other link := absurd link (h.named id other)
  settled id resolved := absurd (h.unresolved id) resolved.not_isUnresolved
  linked id resolved := absurd (h.unresolved id) resolved.not_isUnresolved

theorem Reports.unlinked (h : m.Reports m') (before : m.Unlinked) : m'.Unlinked :=
  before.congr h.settings h.classes

/-- After a class is added, the class with a number is that of before or the new one. -/
theorem classAt_addClass (m : Model) (c : Class) (id : ClassId) :
    ({ m with classes := m.classes ++ [c] } : Model).classAt id = m.classAt id ∨
      ({ m with classes := m.classes ++ [c] } : Model).classAt id = c := by
  simp only [classAt, List.getD_eq_getElem?_getD, List.getElem?_append]
  split
  · exact .inl rfl
  · rename_i beyond
    rcases Nat.eq_zero_or_pos (id - m.classes.length) with first | later
    · exact .inr (by simp [first])
    · have absent : m.classes[id]? = none := List.getElem?_eq_none (by omega)
      have absent' : [c][id - m.classes.length]? = none :=
        List.getElem?_eq_none (by simpa using Nat.succ_le_of_lt later)
      exact .inl (by rw [absent, absent'])

/-- A new class has no members, and it is not linked. -/
theorem Unlinked.addClass (h : m.Unlinked) (settings : Settings) (slot : Slot) (fullName : String)
    (record : ClassRecord) (override : ClassOverride) :
    ({ m with classes := m.classes ++ [newClass settings slot fullName record override] } :
      Model).Unlinked := by
  have cases := classAt_addClass m (newClass settings slot fullName record override)
  refine ⟨⟨fun id entry mem => ?_, fun id => ?_⟩, fun id => ?_, fun id => ?_, fun id other => ?_⟩
  · rcases cases id with same | new
    · rw [same] at mem
      exact (h.sound.entry id entry mem).congr rfl (by rw [same])
    · rw [new] at mem
      exact absurd mem (by simp [newClass])
  · rcases cases id with same | new
    · rw [same]
      exact h.sound.nodup id
    · rw [new]
      exact List.nodup_nil
  · rcases cases id with same | new
    · rw [IsUnresolved, same]
      exact h.unresolved id
    · rw [IsUnresolved, new, newClass]
  · rcases cases id with same | new
    · rw [same]
      exact h.parent id
    · rw [new, newClass]
  · rcases cases id with same | new
    · rw [same]
      exact h.named id other
    · rw [new]
      simp [newClass]

theorem Unlinked.setsMembers {members : Members} (h : m.Unlinked)
    (sets : SetsMembers id members m m') : m'.Unlinked := by
  have kept : ∀ k, ∃ members, m'.classAt k = { m.classAt k with members } := by
    intro k
    by_cases ne : k = id
    · subst ne
      exact ⟨members, sets.2⟩
    · exact ⟨_, sets.1.others k ne⟩
  refine ⟨sets.1.sound h.sound, fun k => ?_, fun k => ?_, fun k other => ?_⟩ <;>
    obtain ⟨members, same⟩ := kept k
  · rw [IsUnresolved, same]
    exact h.unresolved k
  · rw [same]
    exact h.parent k
  · rw [same]
    exact h.named k other

/-- What registering a class under a key makes of a model. -/
inductive Registers (key : String) (m : Model) : Model → Prop where
  /-- The key leads to no slot. -/
  | unread : Registers key m m
  /-- The namespaces on the way to the slot are created. -/
  | way {m' : Model} {slot : Slot} (read : m.settings.slotOf key = .ok slot)
      (settings : m'.settings = m.settings) (tree : m'.tree = m.tree.insert slot.home)
      (classes : m'.classes = m.classes) : Registers key m m'
  /-- The class gets the slot, which was free. -/
  | added {m' : Model} {slot : Slot} {fullName : String} {record : ClassRecord}
      {override : ClassOverride} (read : m.settings.slotOf key = .ok slot)
      (free : m.inSlot? slot = none) (settings : m'.settings = m.settings)
      (tree : m'.tree = m.tree.insert slot.home)
      (classes : m'.classes = m.classes ++ [newClass m.settings slot fullName record override]) :
      Registers key m m'

/-- Registering a class keeps a model unlinked. -/
theorem Unlinked.registers {key : String} (h : m.Unlinked) (registers : m.Registers key m') :
    m'.Unlinked := by
  cases registers with
  | unread => exact h
  | way _ settings _ classes => exact h.congr settings classes
  | added _ _ settings _ classes => exact (h.addClass ..).congr settings classes

end Model

namespace Build

open Model

variable {m : Model} {id : ClassId}

/-- However registering a class ends, it is a case of `Registers`; a value of the wrong type stops
it. -/
theorem ends_register (key : String) (record? : Option ClassRecord) (m : Model) :
    Ends (register key record?) m (fun _ m' => m.Registers key m') fun error m' =>
      m.Registers key m' ∧ ∃ fault, error = .shape fault := by
  unfold register
  rw [ends_bind, ends_get, ends_bind, ends_ofReading]
  refine ⟨fun slot read => ?_, fun fault _ => ⟨.unread, fault, rfl⟩⟩
  rw [ends_bind, ends_modify, ends_bind, ends_get]
  split
  · rw [ends_bind, ends_warn, ends_pure]
    exact .way read rfl rfl rfl
  · rename_i taken
    have free : m.inSlot? slot = none := Option.not_isSome_iff_eq_none.1 taken
    rw [ends_bind, ends_orFault]
    refine ⟨fun record _ => ?_, fun _ => ⟨.way read rfl rfl rfl, _, rfl⟩⟩
    dsimp only
    rw [ends_bind, ends_ofReading]
    refine ⟨fun override _ => ?_, fun fault _ => ⟨.way read rfl rfl rfl, fault, rfl⟩⟩
    unfold addClass
    rw [ends_bind, ends_bind, ends_get, ends_bind, ends_set, ends_pure, ends_bind, ends_ofReading]
    refine ⟨fun owner _ => ?_, fun fault _ => ⟨.added read free rfl rfl rfl, fault, rfl⟩⟩
    rw [ends_bind, ends_note, ends_pure]
    exact .added read free rfl rfl rfl

/-- Adding a sound member to a class keeps a model unlinked. -/
theorem ends_addMember (unlinked : m.Unlinked) (registered : id < m.classes.length)
    {member : Member} (sound : m.SoundEntry id (member.key, member)) :
    Ends (addMember id member) m (fun _ m' => m'.Unlinked) fun _ _ => True := by
  unfold addMember
  rw [ends_bind, ends_get]
  dsimp only
  split
  · rw [ends_bind, ends_warn, ends_pure]
    exact unlinked.congr rfl rfl
  · exact unlinked.setsMembers (setsMembers_put registered _ fun _ => sound)

/-- Attaching an item to a class keeps a model unlinked. -/
theorem ends_attachMember (unlinked : m.Unlinked) (registered : id < m.classes.length)
    (item : Item) :
    Ends (attachMember id item) m (fun _ m' => m'.Unlinked) fun _ _ => True := by
  unfold attachMember
  rw [ends_bind]
  have made := (buildMember_made item id m).and ((reads_buildMember item id).consults.ends m)
  refine made.mono ?_ fun _ _ _ => trivial
  rintro member m₁ ⟨⟨same, owner, -, factory⟩, value, reports⟩
  have sound : m.SoundEntry id (member.key, member) := by
    refine ⟨rfl, owner, ?_, m, id, member, rfl, ?_⟩
    · rwa [same]
    · rwa [same]
  have registered₁ : id < m₁.classes.length := by rwa [reports.classes]
  rw [ends_bind]
  refine (ends_addMember (reports.unlinked unlinked) registered₁
    (sound.of_outline_eq reports.outline)).mono (fun added m₂ unlinked₂ => ?_) fun _ _ h => h
  split
  · unfold warnOfDeprecation
    rw [ends_bind, ends_bind, ends_get]
    dsimp only
    split
    · exact unlinked₂.congr rfl rfl
    · exact unlinked₂
  · exact unlinked₂

/-- A class that is looked up is registered. -/
theorem ends_lookup (name : String) (m : Model) :
    Ends (lookup name) m (fun found m' => m' = m ∧ ∀ id, found = some id → id < m.classes.length)
      fun _ _ => True := by
  unfold lookup
  rw [ends_bind, ends_get, ends_bind, ends_ofReading]
  refine ⟨fun slot read => ?_, fun _ _ => trivial⟩
  split
  · refine ⟨rfl, fun id found => ?_⟩
    have find : m.find? name = .ok (some id) := by rw [find?, read, Except.map, found]
    exact lt_of_found? (found?_of_find? find)
  · exact trivial

/-- Attaching an item keeps a model unlinked. -/
theorem ends_attach (unlinked : m.Unlinked) (entry : ItemEntry) :
    Ends (attach entry) m (fun _ m' => m'.Unlinked) fun _ _ => True := by
  unfold attach
  split
  · exact trivial
  · rw [ends_bind, ends_get, ends_bind, ends_ofReading]
    refine ⟨fun ignored _ => ?_, fun _ _ => trivial⟩
    split
    · exact unlinked
    · exact trivial
  · exact unlinked.congr rfl rfl
  · rename_i className content
    rw [ends_bind, ends_get, ends_bind, ends_ofReading]
    refine ⟨fun ignored _ => ?_, fun _ _ => trivial⟩
    split
    · exact unlinked
    unfold attachOwned
    rw [ends_bind]
    refine (ends_lookup className m).mono ?_ fun _ _ _ => trivial
    rintro found m' ⟨rfl, registered⟩
    split
    · exact unlinked.congr rfl rfl
    · rename_i id
      split
      · exact unlinked
      · exact trivial
      · exact ends_attachMember unlinked (registered id rfl) _

section Assembly

variable {holds : Model → Prop}

/-- What registering a class keeps holds after the class of a record or of the settings is
registered. -/
theorem ends_discard_register
    (registers : ∀ {m m' : Model} {key : String}, holds m → m.Registers key m' → holds m')
    (start : holds m) (key : String) (record? : Option ClassRecord) :
    Ends (discard (register key record?)) m (fun _ m' => holds m') fun _ _ => True := by
  rw [ends_discard]
  exact (ends_register key record? m).mono (fun _ _ => registers start) fun _ _ _ => trivial

/-- **The rule for the assembly of a document.**  What does not depend on the log and is kept by
registering a class and by attaching an item holds at the end. -/
theorem ends_assemble_of
    (logged : ∀ {m : Model} (log : List LogEntry), holds m → holds { m with log })
    (registers : ∀ {m m' : Model} {key : String}, holds m → m.Registers key m' → holds m')
    (attaches : ∀ {m : Model} (entry : ItemEntry), holds m →
      Ends (attach entry) m (fun _ m' => holds m') fun _ _ => True)
    (start : holds m) (document : Document) :
    Ends (assemble document) m (fun _ m' => holds m') fun _ _ => True := by
  have weaken : ∀ (_ : BuildError) (_ : Model), True → True := fun _ _ h => h
  unfold assemble
  rw [ends_bind, ends_orFault]
  refine ⟨fun classes _ => ?_, fun _ => trivial⟩
  rw [ends_bind]
  refine (Ends.forM (fun _ m' => holds m') (fun _ _ => True) (fun entry _ m' before => ?_)
    start).mono ?_ weaken
  · unfold registerEntry
    rw [ends_bind, ends_get, ends_bind, ends_ofReading]
    refine ⟨fun ignored _ => ?_, fun _ _ => trivial⟩
    split
    · exact before
    · exact ends_discard_register registers before _ _
  intro _ m₁ holds₁
  rw [ends_bind, ends_orFault]
  refine ⟨fun items _ => ?_, fun _ => trivial⟩
  rw [ends_bind]
  refine (Ends.foldlM (fun _ _ m' => holds m') (fun _ _ => True)
    (fun item _ attached m' before => ?_) holds₁).mono ?_ weaken
  · unfold attachCounting
    rw [ends_bind]
    exact (attaches item before).mono (fun _ _ h => h) weaken
  intro attached m₂ holds₂
  rw [ends_bind, ends_get, ends_bind, ends_ofReading]
  refine ⟨fun additional _ => ?_, fun _ _ => trivial⟩
  rw [ends_bind]
  refine (Ends.forM (fun _ m' => holds m') (fun _ _ => True) (fun name _ m' before => ?_)
    holds₂).mono ?_ weaken
  · unfold registerAdditional
    split
    · exact ends_discard_register registers before _ _
    · exact trivial
  intro _ m₃ holds₃
  rw [ends_bind, ends_get, ends_note]
  exact logged _ holds₃

end Assembly

/-- **A document is assembled to an unlinked model.** -/
theorem ends_assemble (unlinked : m.Unlinked) (document : Document) :
    Ends (assemble document) m (fun _ m' => m'.Unlinked) fun _ _ => True :=
  ends_assemble_of (fun _ h => h.congr rfl rfl) Unlinked.registers
    (fun entry h => ends_attach h entry) unlinked document

end Build
end AmbientDecl
