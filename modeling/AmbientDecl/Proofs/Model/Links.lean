/- # Links between classes

A class **names** the class that it extends and the classes that it uses, as far as their names
lead to classes.  What a class names is told by the outline of the model, so it is the same before
and after linking.

Linking draws **links** from a class to its parent and its mixins.  A class is **settled** when it
is resolved and all classes are settled to which it has links: from a settled class no way along
links comes back to it (`Settled.not_transGen`).
-/

import AmbientDecl.Proofs.Model.Outline
import Mathlib.Logic.Relation

namespace AmbientDecl
namespace Model

variable {m m' : Model} {id other : ClassId}

/-- The class that a name leads to, if it leads to one. -/
def found? (m : Model) (name : String) : Option ClassId :=
  match m.find? name with
  | .ok found => found
  | .error _ => none

/-- The names of the classes that a class uses. -/
def usedNames (m : Model) (id : ClassId) : List String :=
  (m.classAt id).record.usedNames?.getD []

/-- The class that a class extends. -/
def parentOf? (m : Model) (id : ClassId) : Option ClassId :=
  (m.classAt id).record.parentName?.bind m.found?

/-- The classes that a class uses, in the order in which it names them. -/
def mixinsOf (m : Model) (id : ClassId) : List ClassId :=
  (m.usedNames id).filterMap m.found?

/-- A class extends another one by its record. -/
def Extends (m : Model) (id parent : ClassId) : Prop := m.parentOf? id = some parent

/-- A class extends or uses another one by its record. -/
def Names (m : Model) (id other : ClassId) : Prop := m.Extends id other ∨ other ∈ m.mixinsOf id

/-- A class is linked to its parent or to one of its mixins. -/
def HasLink (m : Model) (id other : ClassId) : Prop :=
  (m.classAt id).parent? = some other ∨ .linked other ∈ (m.classAt id).implemented

/-- Whether the linking of a class is done. -/
def IsResolved (m : Model) (id : ClassId) : Prop := (m.classAt id).progress = .resolved

/-- Whether a class is being linked. -/
def IsResolving (m : Model) (id : ClassId) : Prop := (m.classAt id).progress = .resolving

/-- Whether the linking of a class has not begun. -/
def IsUnresolved (m : Model) (id : ClassId) : Prop := (m.classAt id).progress = .unresolved

instance (m : Model) (id : ClassId) : Decidable (m.IsResolved id) :=
  inferInstanceAs (Decidable (_ = _))

instance (m : Model) (id : ClassId) : Decidable (m.IsResolving id) :=
  inferInstanceAs (Decidable (_ = _))

theorem progress_cases (m : Model) (id : ClassId) :
    m.IsUnresolved id ∨ m.IsResolving id ∨ m.IsResolved id := by
  unfold IsUnresolved IsResolving IsResolved
  cases (m.classAt id).progress <;> simp

theorem IsResolved.not_isUnresolved (h : m.IsResolved id) : ¬ m.IsUnresolved id := by
  unfold IsUnresolved
  rw [show (m.classAt id).progress = .resolved from h]
  decide

theorem IsResolving.not_isUnresolved (h : m.IsResolving id) : ¬ m.IsUnresolved id := by
  unfold IsUnresolved
  rw [show (m.classAt id).progress = .resolving from h]
  decide

theorem IsResolved.not_isResolving (h : m.IsResolved id) : ¬ m.IsResolving id := by
  unfold IsResolving
  rw [show (m.classAt id).progress = .resolved from h]
  decide

theorem found?_of_find? {name : String} {found : Option ClassId} (h : m.find? name = .ok found) :
    m.found? name = found := by
  rw [found?, h]

/-- A class that is found is registered. -/
theorem lt_of_found? {name : String} (h : m.found? name = some id) : id < m.classes.length := by
  unfold found? find? at h
  cases slot : m.settings.slotOf name with
  | error fault => simp [slot, Except.map] at h
  | ok slot' =>
    simp only [slot, Except.map, inSlot?] at h
    exact (List.findIdx?_eq_some_iff_getElem.1 h).1

theorem Extends.lt (h : m.Extends id other) : other < m.classes.length := by
  obtain ⟨name, -, found⟩ := Option.bind_eq_some_iff.1 h
  exact lt_of_found? found

theorem Names.lt (h : m.Names id other) : other < m.classes.length := by
  rcases h with h | h
  · exact h.lt
  · obtain ⟨name, -, found⟩ := List.mem_filterMap.1 h
    exact lt_of_found? found

/-- A number beyond the classes stands for a class of which nothing is said. -/
theorem classAt_of_le (h : m.classes.length ≤ id) : m.classAt id = default := by
  rw [classAt, List.getD_eq_getElem?_getD, List.getElem?_eq_none h]
  rfl

theorem IsResolved.lt (h : m.IsResolved id) : id < m.classes.length := by
  refine Nat.lt_of_not_le fun beyond => ?_
  rw [IsResolved, classAt_of_le beyond] at h
  cases h

theorem IsResolving.lt (h : m.IsResolving id) : id < m.classes.length := by
  refine Nat.lt_of_not_le fun beyond => ?_
  rw [IsResolving, classAt_of_le beyond] at h
  cases h

/-- A class that names another one is registered. -/
theorem Names.source_lt (h : m.Names id other) : id < m.classes.length := by
  refine Nat.lt_of_not_le fun beyond => ?_
  rw [Names, Extends, parentOf?, mixinsOf, usedNames, classAt_of_le beyond] at h
  rcases h with h | h
  · cases h
  · exact absurd h List.not_mem_nil

theorem found?_of_outline_eq (h : m'.outline = m.outline) : m'.found? = m.found? := by
  funext name
  rw [found?, found?, find?_of_outline_eq h]

theorem parentOf?_of_outline_eq (h : m'.outline = m.outline) (id : ClassId) :
    m'.parentOf? id = m.parentOf? id := by
  rw [parentOf?, parentOf?, record_of_outline_eq h, found?_of_outline_eq h]

theorem usedNames_of_outline_eq (h : m'.outline = m.outline) (id : ClassId) :
    m'.usedNames id = m.usedNames id := by
  rw [usedNames, usedNames, record_of_outline_eq h]

theorem mixinsOf_of_outline_eq (h : m'.outline = m.outline) (id : ClassId) :
    m'.mixinsOf id = m.mixinsOf id := by
  rw [mixinsOf, mixinsOf, usedNames_of_outline_eq h, found?_of_outline_eq h]

theorem names_of_outline_eq (h : m'.outline = m.outline) : m'.Names = m.Names := by
  funext id other
  rw [Names, Names, Extends, Extends, parentOf?_of_outline_eq h, mixinsOf_of_outline_eq h]

/-- A class and all that it is linked to, at any distance, is resolved, and no way along the
links goes on for ever. -/
inductive Settled (m : Model) : ClassId → Prop where
  | intro (id : ClassId) (resolved : m.IsResolved id)
      (links : ∀ other, m.HasLink id other → Settled m other) : Settled m id

theorem Settled.resolved (h : m.Settled id) : m.IsResolved id := by
  cases h with
  | intro _ resolved _ => exact resolved

theorem Settled.link (h : m.Settled id) (link : m.HasLink id other) : m.Settled other := by
  cases h with
  | intro _ _ links => exact links other link

/-- **No settled class is linked to itself at any distance.** -/
theorem Settled.not_transGen (h : m.Settled id) : ¬ Relation.TransGen m.HasLink id id := by
  induction h with
  | intro id resolved links ih =>
    intro cycle
    obtain ⟨other, first, rest⟩ := Relation.TransGen.head'_iff.1 cycle
    exact ih other first (Relation.TransGen.tail' rest first)

end Model
end AmbientDecl
