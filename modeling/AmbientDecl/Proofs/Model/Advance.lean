/- # How linking moves a model on

Three relations between a model and a later one.

* `Changes own`: the class `own` is linked further and nothing else is touched but the reports.
* `AdvancesBeside own`: beside `own`, every class that was resolved or being resolved is as it
  was.
* `Advances`: every class that was resolved or being resolved is as it was.

A step that ends well leaves no class in the middle of its linking that was not there before
(`NoneEntered`).
-/

import AmbientDecl.Proofs.Model.Links
import AmbientDecl.Proofs.Model.Sound

namespace AmbientDecl
namespace Model

variable {m m' m'' : Model} {own id other : ClassId}

/-- The class `own` was linked further, and nothing else changed but the reports. -/
structure Changes (own : ClassId) (m m' : Model) : Prop where
  outline : m'.outline = m.outline
  log : m.log <+: m'.log
  others : ∀ id, id ≠ own → m'.classAt id = m.classAt id
  progress : (m'.classAt own).progress = (m.classAt own).progress
  parent : (m'.classAt own).parent? = (m.classAt own).parent? ∨
    (m'.classAt own).parent? = m.parentOf? own
  mixins : ∀ other, .linked other ∈ (m'.classAt own).implemented →
    .linked other ∈ (m.classAt own).implemented ∨ other ∈ m.mixinsOf own
  sound : m.Sound → m'.Sound

/-- Beside the class `own`, the classes whose linking had begun are as they were. -/
structure AdvancesBeside (own : ClassId) (m m' : Model) : Prop where
  outline : m'.outline = m.outline
  log : m.log <+: m'.log
  begun : ∀ id, id ≠ own → ¬ m.IsUnresolved id → m'.classAt id = m.classAt id

/-- The classes whose linking had begun are as they were. -/
structure Advances (m m' : Model) : Prop where
  outline : m'.outline = m.outline
  log : m.log <+: m'.log
  begun : ∀ id, ¬ m.IsUnresolved id → m'.classAt id = m.classAt id

/-- No class is in the middle of its linking that was not there before. -/
def NoneEntered (m m' : Model) : Prop := ∀ id, m'.IsResolving id → m.IsResolving id

theorem IsResolved.congr (h : m.IsResolved id) (same : m'.classAt id = m.classAt id) :
    m'.IsResolved id := by
  rw [IsResolved, same]
  exact h

theorem IsResolving.congr (h : m.IsResolving id) (same : m'.classAt id = m.classAt id) :
    m'.IsResolving id := by
  rw [IsResolving, same]
  exact h

theorem NoneEntered.refl (m : Model) : m.NoneEntered m := fun _ h => h

theorem NoneEntered.trans (h : m.NoneEntered m') (h' : m'.NoneEntered m'') : m.NoneEntered m'' :=
  fun id resolving => h id (h' id resolving)

theorem Reports.changes (h : m.Reports m') (own : ClassId) : m.Changes own m' where
  outline := h.outline
  log := h.log
  others id _ := h.classAt id
  progress := by rw [h.classAt]
  parent := .inl (by rw [h.classAt])
  mixins other link := .inl (by rwa [h.classAt] at link)
  sound sound := sound.of_members_eq h.outline fun id => by rw [h.classAt]

theorem Changes.refl (own : ClassId) (m : Model) : m.Changes own m := (Reports.refl m).changes own

theorem Changes.trans (h : m.Changes own m') (h' : m'.Changes own m'') : m.Changes own m'' where
  outline := h'.outline.trans h.outline
  log := h.log.trans h'.log
  others id ne := (h'.others id ne).trans (h.others id ne)
  progress := h'.progress.trans h.progress
  parent := by
    rcases h'.parent with same | found
    · rw [same]
      exact h.parent
    · rw [found, parentOf?_of_outline_eq h.outline]
      exact .inr rfl
  mixins other link := by
    rcases h'.mixins other link with link | named
    · exact h.mixins other link
    · rw [mixinsOf_of_outline_eq h.outline] at named
      exact .inr named
  sound sound := h'.sound (h.sound sound)

/-- A change of one class that keeps its outline keeps the outline of the model. -/
theorem outline_modifyClass (m : Model) (id : ClassId) {change : Class → Class}
    (keeps : ∀ c, (change c).outline = c.outline) :
    (m.modifyClass id change).outline = m.outline := by
  have classes : (m.classes.modify id change).map Class.outline = m.classes.map Class.outline := by
    apply List.ext_getElem?
    intro i
    rw [List.getElem?_map, List.getElem?_map, List.getElem?_modify]
    split <;> cases m.classes[i]? <;> simp [keeps]
  rw [outline, outline, modifyClass, classes]

/-- There is nothing to change at a number beyond the classes. -/
theorem modifyClass_of_le (beyond : m.classes.length ≤ id) (change : Class → Class) :
    m.modifyClass id change = m := by
  rw [modifyClass, List.modify_eq_self beyond]

theorem classAt_modifyClass_self (registered : id < m.classes.length) (change : Class → Class) :
    (m.modifyClass id change).classAt id = change (m.classAt id) := by
  rw [classAt_modifyClass m id id change registered, if_pos rfl]

theorem classAt_modifyClass_of_ne (registered : id < m.classes.length) (change : Class → Class)
    (ne : other ≠ id) : (m.modifyClass id change).classAt other = m.classAt other := by
  rw [classAt_modifyClass m id other change registered, if_neg (Ne.symm ne)]

/-- Changing a class further in its linking is such a change. -/
theorem changes_modifyClass (registered : id < m.classes.length) {change : Class → Class}
    (keeps : ∀ c, (change c).outline = c.outline)
    (progress : ∀ c, (change c).progress = c.progress)
    (parent : (change (m.classAt id)).parent? = (m.classAt id).parent? ∨
      (change (m.classAt id)).parent? = m.parentOf? id)
    (mixins : ∀ other, .linked other ∈ (change (m.classAt id)).implemented →
      .linked other ∈ (m.classAt id).implemented ∨ other ∈ m.mixinsOf id)
    (sound : m.Sound → (m.modifyClass id change).Sound) :
    m.Changes id (m.modifyClass id change) where
  outline := outline_modifyClass m id keeps
  log := List.prefix_refl _
  others other ne := classAt_modifyClass_of_ne registered change ne
  progress := by rw [classAt_modifyClass_self registered, progress]
  parent := by rwa [classAt_modifyClass_self registered]
  mixins other link := mixins other (by rwa [classAt_modifyClass_self registered] at link)
  sound := sound

/-- A change that leaves the members of a class alone keeps a model sound. -/
theorem sound_modifyClass (registered : id < m.classes.length) {change : Class → Class}
    (keeps : ∀ c, (change c).outline = c.outline) (members : ∀ c, (change c).members = c.members)
    (sound : m.Sound) : (m.modifyClass id change).Sound := by
  refine sound.of_members_eq (outline_modifyClass m id keeps) fun other => ?_
  by_cases ne : other = id
  · rw [ne, classAt_modifyClass_self registered, members]
  · rw [classAt_modifyClass_of_ne registered change ne]

theorem Changes.noneEntered (h : m.Changes own m') : m.NoneEntered m' := by
  intro id resolving
  by_cases ne : id = own
  · subst ne
    exact h.progress.symm.trans resolving
  · exact resolving.congr (h.others id ne).symm

theorem Changes.beside (h : m.Changes own m') : m.AdvancesBeside own m' :=
  ⟨h.outline, h.log, fun id ne _ => h.others id ne⟩

theorem Advances.refl (m : Model) : m.Advances m := ⟨rfl, List.prefix_refl _, fun _ _ => rfl⟩

theorem Advances.not_isUnresolved (h : m.Advances m') (begun : ¬ m.IsUnresolved id) :
    ¬ m'.IsUnresolved id := by
  rw [IsUnresolved, h.begun id begun]
  exact begun

theorem Advances.isResolved (h : m.Advances m') (resolved : m.IsResolved id) : m'.IsResolved id :=
  resolved.congr (h.begun id resolved.not_isUnresolved)

theorem Advances.trans (h : m.Advances m') (h' : m'.Advances m'') : m.Advances m'' where
  outline := h'.outline.trans h.outline
  log := h.log.trans h'.log
  begun id begun := (h'.begun id (h.not_isUnresolved begun)).trans (h.begun id begun)

theorem Advances.beside (h : m.Advances m') (own : ClassId) : m.AdvancesBeside own m' :=
  ⟨h.outline, h.log, fun id _ => h.begun id⟩

theorem AdvancesBeside.not_isUnresolved (h : m.AdvancesBeside own m') (ne : id ≠ own)
    (begun : ¬ m.IsUnresolved id) : ¬ m'.IsUnresolved id := by
  rw [IsUnresolved, h.begun id ne begun]
  exact begun

theorem AdvancesBeside.trans (h : m.AdvancesBeside own m') (h' : m'.AdvancesBeside own m'') :
    m.AdvancesBeside own m'' where
  outline := h'.outline.trans h.outline
  log := h.log.trans h'.log
  begun id ne begun :=
    (h'.begun id ne (h.not_isUnresolved ne begun)).trans (h.begun id ne begun)

/-- A class whose linking had not begun can be changed in any way while the others advance. -/
theorem AdvancesBeside.advances (h : m.AdvancesBeside own m') (new : m.IsUnresolved own) :
    m.Advances m' where
  outline := h.outline
  log := h.log
  begun id begun := h.begun id (fun same => begun (same ▸ new)) begun

/-- The classes that are resolved stay as they are. -/
theorem Advances.classAt_eq (h : m.Advances m') (resolved : m.IsResolved id) :
    m'.classAt id = m.classAt id :=
  h.begun id resolved.not_isUnresolved

/-- While a class is being linked, the classes that are resolved stay as they are. -/
theorem AdvancesBeside.classAt_eq (h : m.AdvancesBeside own m') (unfinished : ¬ m.IsResolved own)
    (resolved : m.IsResolved id) : m'.classAt id = m.classAt id :=
  h.begun id (fun same => unfinished (same ▸ resolved)) resolved.not_isUnresolved

/-- A settled class stays settled while the resolved classes stay as they are. -/
theorem Settled.congr (h : m.Settled id)
    (same : ∀ id, m.IsResolved id → m'.classAt id = m.classAt id) : m'.Settled id := by
  induction h with
  | intro id resolved links ih =>
    refine .intro id (resolved.congr (same id resolved)) fun other link => ih other ?_
    rwa [HasLink, same id resolved] at link

end Model
end AmbientDecl
