/- # Classes and the namespaces around them

A model is **housed** when the namespaces have distinct names at every level, every class stands in
a namespace of the tree under names without dots, and no two classes share a slot.  Registering a
class keeps this, and so does all that keeps the outline of the model.  So it holds of the model
from which the declaration file is rendered (`ends_generate_housed`).

Where the full name of a class is the dotted path of its slot, the namespace of that name, if there
is one, is the child of the same name in the namespace that the class stands in
(`Housed.path_dotted`).
-/

import AmbientDecl.Proofs.Model.Quiet
import AmbientDecl.Proofs.Model.Run
import AmbientDecl.Proofs.Namespaces
import Mathlib.Data.List.Nodup

namespace AmbientDecl

namespace Slot

/-- The path of a namespace with the name of a slot, in the same namespace. -/
def path (slot : Slot) : List String := slot.home ++ [slot.name]

/-- The path of a slot as a name. -/
def dotted (slot : Slot) : String := Dotted.join slot.path

/-- No name of a slot holds a dot. -/
def Undotted (slot : Slot) : Prop := ∀ name ∈ slot.path, '.' ∉ name.toList

theorem path_inj {slot other : Slot} : slot.path = other.path ↔ slot = other := by
  cases slot
  cases other
  simp [path]

theorem Undotted.path_dotted {slot : Slot} (undotted : slot.Undotted) (named : slot.dotted ≠ "") :
    Forest.path slot.dotted = slot.path := by
  rw [Forest.path, if_neg named]
  exact Dotted.segments_join (by simp [path]) undotted

end Slot

namespace Settings

theorem dot_not_mem_path {name part : String} (mem : part ∈ Forest.path name) :
    '.' ∉ part.toList := by
  unfold Forest.path at mem
  split at mem
  · exact absurd mem List.not_mem_nil
  · exact Dotted.dot_not_mem_segment mem

theorem dot_not_mem_of_readPath {value : Json} {home : List String}
    (h : readPath value = .ok home) : ∀ part ∈ home, '.' ∉ part.toList := by
  unfold readPath at h
  split at h
  · obtain rfl := Except.ok.inj h
    exact fun _ => dot_not_mem_path
  · split at h
    · cases h
    · obtain rfl := Except.ok.inj h
      exact fun _ mem => absurd mem List.not_mem_nil

/-- Names without dots are read from a full name. -/
theorem undotted_of_slotOf {settings : Settings} {fullName : String} {slot : Slot}
    (h : settings.slotOf fullName = .ok slot) : slot.Undotted := by
  unfold slotOf at h
  obtain ⟨owner, -, h⟩ := bind_eq_ok.1 h
  obtain ⟨home, read, same⟩ := bind_eq_ok.1 h
  obtain rfl := Except.ok.inj same
  have name : '.' ∉ (Dotted.simpleName fullName).toList :=
    Dotted.dot_not_mem_segment (List.getLast_mem (Dotted.segments_ne_nil fullName))
  exact List.forall_mem_append.2
    ⟨dot_not_mem_of_readPath read, List.forall_mem_singleton.2 name⟩

end Settings

namespace Model

variable {m m' : Model} {id : ClassId} {slot : Slot}

/-- The slots of the classes, in the order of registration. -/
def slots (m : Model) : List Slot := m.classes.map Class.slot

/-- What holds of the tree and the slots of a model. -/
structure Housed (m : Model) : Prop where
  distinct : m.tree.Distinct
  home : ∀ slot ∈ m.slots, m.tree.contains slot.home
  undotted : ∀ slot ∈ m.slots, slot.Undotted
  nodup : m.slots.Nodup

theorem slots_of_outline_eq (h : m'.outline = m.outline) : m'.slots = m.slots := by
  have slots : ∀ m : Model, m.outline.slots = m.slots := fun m => by
    simp [Model.slots, outline, Class.outline, Function.comp_def]
  rw [← slots, h, slots]

theorem classAt_eq_getElem (registered : id < m.classes.length) :
    m.classAt id = m.classes[id] := by
  rw [classAt, List.getD_eq_getElem?_getD, List.getElem?_eq_getElem registered]
  rfl

theorem slot_mem_slots (registered : id < m.classes.length) : (m.classAt id).slot ∈ m.slots := by
  rw [classAt_eq_getElem registered]
  exact List.mem_map_of_mem (List.getElem_mem registered)

theorem not_mem_slots_of_free (free : m.inSlot? slot = none) : slot ∉ m.slots := by
  intro mem
  obtain ⟨c, mem, same⟩ := List.mem_map.1 mem
  have other := List.findIdx?_eq_none_iff.1 free c mem
  simp [same] at other

/-- Where no two classes share a slot, the class in a slot is the one that has it. -/
theorem inSlot?_eq_some_iff_of_nodup (nodup : m.slots.Nodup) :
    m.inSlot? slot = some id ↔ id < m.classes.length ∧ (m.classAt id).slot = slot := by
  unfold inSlot?
  rw [List.findIdx?_eq_some_iff_getElem]
  constructor
  · rintro ⟨registered, same, -⟩
    exact ⟨registered, classAt_eq_getElem registered ▸ beq_iff_eq.1 same⟩
  · rintro ⟨registered, rfl⟩
    refine ⟨registered, by rw [classAt_eq_getElem registered, beq_self_eq_true],
      fun k before same => ?_⟩
    have length : m.slots.length = m.classes.length := List.length_map ..
    have bound : id < m.slots.length := by rwa [length]
    have bound' : k < m.slots.length := Nat.lt_trans before bound
    have shared : m.slots[k] = m.slots[id] := by
      rw [classAt_eq_getElem registered] at same
      simpa [slots] using same
    exact Nat.ne_of_lt before ((List.Nodup.getElem_inj_iff nodup).1 shared)

namespace Housed

theorem congr (h : m.Housed) (tree : m'.tree = m.tree) (slots : m'.slots = m.slots) :
    m'.Housed := by
  refine ⟨tree ▸ h.distinct, ?_, slots ▸ h.undotted, slots ▸ h.nodup⟩
  rw [tree, slots]
  exact h.home

theorem of_outline_eq (h : m.Housed) (same : m'.outline = m.outline) : m'.Housed :=
  h.congr (tree_of_outline_eq same) (slots_of_outline_eq same)

theorem empty (settings : Settings) : (Model.empty settings).Housed where
  distinct := .nil
  home _ mem := absurd mem List.not_mem_nil
  undotted _ mem := absurd mem List.not_mem_nil
  nodup := List.nodup_nil

/-- The namespaces on a path are created. -/
theorem insert (h : m.Housed) (path : List String) (tree : m'.tree = m.tree.insert path)
    (slots : m'.slots = m.slots) : m'.Housed where
  distinct := tree ▸ h.distinct.insert path
  home slot mem := by
    rw [tree, Forest.contains_insert, h.home slot (slots ▸ mem), Bool.true_or]
  undotted := slots ▸ h.undotted
  nodup := slots ▸ h.nodup

/-- **Registering a class keeps a model housed.** -/
theorem registers {key : String} (h : m.Housed) (registers : m.Registers key m') : m'.Housed := by
  cases registers with
  | unread => exact h
  | way _ _ tree classes => exact h.insert _ tree (by rw [slots, classes, slots])
  | @added _ slot _ _ _ read free _ tree classes =>
    have slots : m'.slots = m.slots ++ [slot] := by
      simp [slots, classes, newClass]
    have there : m'.tree.contains slot.home := by
      rw [tree, Forest.contains_insert]
      simp
    refine ⟨tree ▸ h.distinct.insert _, fun other mem => ?_, fun other mem => ?_, ?_⟩
    · rw [slots, List.mem_append, List.mem_singleton] at mem
      rcases mem with mem | rfl
      · rw [tree, Forest.contains_insert, h.home other mem, Bool.true_or]
      · exact there
    · rw [slots, List.mem_append, List.mem_singleton] at mem
      rcases mem with mem | rfl
      · exact h.undotted other mem
      · exact Settings.undotted_of_slotOf read
    · rw [slots, List.nodup_append]
      refine ⟨h.nodup, List.pairwise_singleton _ slot, fun other mem _ new same => ?_⟩
      rw [List.mem_singleton.1 new] at same
      exact not_mem_slots_of_free free (same ▸ mem)

/-- The class in a slot is the one that has it. -/
theorem inSlot?_eq_some_iff (h : m.Housed) :
    m.inSlot? slot = some id ↔ id < m.classes.length ∧ (m.classAt id).slot = slot :=
  inSlot?_eq_some_iff_of_nodup h.nodup

/-- No two classes share a slot. -/
theorem eq_of_slot_eq (h : m.Housed) {k : ClassId} (registered : id < m.classes.length)
    (registered' : k < m.classes.length) (same : (m.classAt k).slot = (m.classAt id).slot) :
    k = id := by
  have found := h.inSlot?_eq_some_iff.2 ⟨registered', same⟩
  rw [h.inSlot?_eq_some_iff.2 ⟨registered, rfl⟩] at found
  exact (Option.some.inj found).symm

/-- A class whose full name is the dotted path of its slot has the full name of the namespace in
which its members stand, if there is one. -/
theorem path_dotted (h : m.Housed) (registered : id < m.classes.length) (named : m.fullName id ≠ "")
    (dotted : m.fullName id = (m.classAt id).slot.dotted) :
    Forest.path (m.fullName id) = (m.classAt id).slot.path := by
  rw [dotted] at named ⊢
  exact (h.undotted _ (slot_mem_slots registered)).path_dotted named

end Housed
end Model

namespace Build

open Model

/-- **The declaration file is rendered from a housed model.** -/
theorem ends_generate_housed (settings : Settings) (document : Document) :
    Ends (generate document) (empty settings) (fun _ m => m.Housed) fun _ _ => True := by
  have assembled : Ends (assemble document) (empty settings) (fun _ m => m.Housed)
      fun _ _ => True :=
    ends_assemble_of (fun _ h => h.congr rfl rfl) Housed.registers
      (fun entry h => (quiet_attach entry _).mono (fun _ _ still => h.of_outline_eq still.outline)
        fun _ _ _ => trivial) (.empty settings) document
  refine (ends_generate settings document).mono ?_ fun _ _ _ => trivial
  rintro _ m ⟨m₀, run, steady, -⟩
  exact (assembled.of_ok run).of_outline_eq steady.outline

end Build
end AmbientDecl
