/- # Actions that move no class

A class moves when its progress changes, and only the resolver itself moves classes.  An action is
**quiet** when it moves no class, keeps the outline of the model, and links classes to no other
classes than registered ones.  Building and copying members is quiet, and so are all parts of
linking a class but for the way to other classes; attaching an item is quiet too.  Registering a
class moves no class either: a class that is new has not begun to move (`ends_register_idle`).

No quiet action fails because of a class in the middle of its linking.
-/

import AmbientDecl.Proofs.Model.Assembled

namespace AmbientDecl

namespace Model

variable {m m' m'' : Model} {id : ClassId}

/-- All classes have come as far in `m'` as in `m`. -/
def SameProgress (m m' : Model) : Prop :=
  ∀ k, (m'.classAt k).progress = (m.classAt k).progress

theorem SameProgress.refl (m : Model) : m.SameProgress m := fun _ => rfl

theorem SameProgress.trans (h : m.SameProgress m') (h' : m'.SameProgress m'') :
    m.SameProgress m'' :=
  fun k => (h' k).trans (h k)

theorem SameProgress.isResolving_iff (h : m.SameProgress m') (k : ClassId) :
    m'.IsResolving k ↔ m.IsResolving k := by
  rw [IsResolving, h k, IsResolving]

/-- No class has moved, and new links lead to classes that were registered. -/
structure Idle (m m' : Model) : Prop where
  progress : m.SameProgress m'
  registered : m.classes.length ≤ m'.classes.length
  links : ∀ id k, .linked k ∈ (m'.classAt id).implemented →
    .linked k ∈ (m.classAt id).implemented ∨ k < m.classes.length

/-- No class has moved, and the model has the same outline. -/
structure Still (m m' : Model) : Prop extends Idle m m' where
  outline : m'.outline = m.outline

namespace Still

theorem length (h : m.Still m') : m'.classes.length = m.classes.length :=
  length_classes_of_outline_eq h.outline

theorem of_classes_eq (same : m'.classes = m.classes) (outline : m'.outline = m.outline) :
    m.Still m' := by
  have classAt : ∀ k, m'.classAt k = m.classAt k := fun k => by
    rw [Model.classAt, same, Model.classAt]
  have links : ∀ id k, .linked k ∈ (m'.classAt id).implemented →
      .linked k ∈ (m.classAt id).implemented ∨ k < m.classes.length := fun id k link => by
    rw [classAt] at link
    exact .inl link
  exact ⟨⟨fun k => by rw [classAt], Nat.le_of_eq (by rw [same]), links⟩, outline⟩

theorem refl (m : Model) : m.Still m := of_classes_eq rfl rfl

theorem trans (h : m.Still m') (h' : m'.Still m'') : m.Still m'' where
  progress := h.progress.trans h'.progress
  registered := Nat.le_trans h.registered h'.registered
  outline := h'.outline.trans h.outline
  links id k link := by
    rcases h'.links id k link with before | registered
    · exact h.links id k before
    · exact .inr (h.length ▸ registered)

/-- A change of a class that keeps its progress moves no class. -/
theorem modifyClass (m : Model) (id : ClassId) {change : Class → Class}
    (keeps : ∀ c, (change c).outline = c.outline)
    (progress : ∀ c, (change c).progress = c.progress)
    (links : ∀ k, .linked k ∈ (change (m.classAt id)).implemented →
      .linked k ∈ (m.classAt id).implemented ∨ k < m.classes.length) :
    m.Still (m.modifyClass id change) := by
  have outline := outline_modifyClass m id keeps
  rcases Nat.lt_or_ge id m.classes.length with registered | beyond
  · have seen := fun k => classAt_modifyClass m id k change registered
    have length := length_classes_modifyClass m id change
    refine ⟨⟨fun k => ?_, Nat.le_of_eq length.symm, fun k other link => ?_⟩, outline⟩
    · rw [seen]
      split
      · exact progress _
      · rfl
    · rw [seen] at link
      split at link
      · rename_i same
        exact same ▸ links other (same ▸ link)
      · exact .inl link
  · refine of_classes_eq ?_ outline
    rw [Model.modifyClass, List.modify_eq_self beyond]

end Still

theorem Idle.of_classes_eq (h : m.Idle m') (same : m''.classes = m'.classes) : m.Idle m'' := by
  have classAt : ∀ k, m''.classAt k = m'.classAt k := fun k => by
    rw [Model.classAt, same, Model.classAt]
  refine ⟨fun k => ?_, same ▸ h.registered, fun id k link => ?_⟩
  · rw [classAt]
    exact h.progress k
  · rw [classAt] at link
    exact h.links id k link

/-- A class without links that has not begun to move can be added. -/
theorem idle_addClass (m : Model) (c : Class) (new : c.progress = .unresolved)
    (links : ∀ k, .linked k ∉ c.implemented) :
    m.Idle { m with classes := m.classes ++ [c] } := by
  have beyond : ∀ k, m.classes.length ≤ k → (m.classAt k).progress = .unresolved := fun k le => by
    rw [classAt_of_le le]
    rfl
  have before : ∀ k, k < m.classes.length →
      ({ m with classes := m.classes ++ [c] } : Model).classAt k = m.classAt k := fun k lt => by
    simp [classAt, List.getD_eq_getElem?_getD, List.getElem?_append_left lt]
  refine ⟨fun k => ?_, by simp, fun id k link => ?_⟩
  · rcases Nat.lt_or_ge k m.classes.length with lt | le
    · rw [before k lt]
    · rcases classAt_addClass m c k with same | same
      · rw [same]
      · rw [same, new, beyond k le]
  · rcases classAt_addClass m c id with same | same
    · rw [same] at link
      exact .inl link
    · rw [same] at link
      exact absurd link (links k)

end Model

namespace Build

open Model

variable {α β : Type} {m : Model} {id : ClassId}

/-- An action that moves no class, however it ends, and finds none in the middle of its linking. -/
def Quiet (action : Build α) : Prop :=
  ∀ m, Ends action m (fun _ m' => m.Still m') fun error m' =>
    m.Still m' ∧ error.isOfProgress = false

namespace Quiet

theorem pure (value : α) : Quiet (pure value : Build α) := fun m => .refl m

theorem throw {error : BuildError} (named : error.isOfProgress = false) :
    Quiet (throw error : Build α) :=
  fun m => ⟨.refl m, named⟩

theorem bind {action : Build β} {next : β → Build α} (h : Quiet action)
    (h' : ∀ value, Quiet (next value)) : Quiet (action >>= next) := by
  intro m
  rw [ends_bind]
  refine (h m).mono (fun value m' first => ?_) fun _ _ failed => failed
  exact (h' value m').mono (fun _ _ => first.trans) fun _ _ failed =>
    ⟨first.trans failed.1, failed.2⟩

/-- An action may look at the model. -/
theorem getting {next : Model → Build α} (h : ∀ m, Quiet (next m)) : Quiet (get >>= next) :=
  fun m => (h m) m

theorem forM {action : β → Build PUnit} (h : ∀ x, Quiet (action x)) (xs : List β) :
    Quiet (xs.forM action) := by
  induction xs with
  | nil => exact .pure _
  | cons x rest ih => exact (h x).bind fun _ => ih

theorem ofReading (reading : Except ShapeFault α) : Quiet (ofReading reading) := by
  cases reading with
  | ok value => exact .pure value
  | error fault => exact .throw rfl

theorem orFault (fault : ShapeFault) (value? : Option α) : Quiet (orFault fault value?) := by
  cases value? with
  | some value => exact .pure value
  | none => exact .throw rfl

theorem note (entry : LogEntry) : Quiet (note entry) := fun _ => .of_classes_eq rfl rfl

theorem warn (code message subject : String) : Quiet (warn code message subject) := note _

/-- A change of a class that keeps its progress and its links is quiet. -/
theorem modifyClass (id : ClassId) {change : Class → Class}
    (keeps : ∀ c, (change c).outline = c.outline)
    (progress : ∀ c, (change c).progress = c.progress)
    (links : ∀ c, (change c).implemented = c.implemented) : Quiet (modifyClass id change) := by
  intro m
  exact .modifyClass m id keeps progress fun k link => .inl (by rwa [links] at link)

end Quiet

theorem quiet_reportUnreadable (error : TypeExpr.SyntaxError) (subject : String) :
    Quiet (reportUnreadable error subject) := by
  intro m
  unfold reportUnreadable
  rw [ends_bind, ends_get]
  split
  · exact .refl m
  · exact .of_classes_eq rfl rfl

/-- An action that reads is quiet. -/
theorem Quiet.of_reads {action : Build α} (h : Reads action) : Quiet action := by
  induction h with
  | pure value => exact .pure value
  | throw named => exact .throw named
  | report error subject => exact quiet_reportUnreadable error subject
  | look _ _ ih => exact .getting ih
  | bind _ _ ih ih' => exact ih.bind ih'

theorem quiet_copyMember (member : Member) (owner : ClassId) : Quiet (copyMember member owner) :=
  .of_reads (reads_copyMember member owner)

theorem quiet_putMember (id : ClassId) (key : String) (member : Member) :
    Quiet (putMember id key member) :=
  .modifyClass id (fun _ => rfl) (fun _ => rfl) fun _ => rfl

/-- Linking a class to a parent that is resolved is quiet. -/
theorem quiet_adopt (id parent : ClassId) : Quiet (adopt id parent) := by
  unfold adopt
  refine .bind (.modifyClass id (fun _ => rfl) (fun _ => rfl) fun _ => rfl) fun _ =>
    .getting fun m => ?_
  split
  · exact .pure _
  · split
    · exact .pure _
    · exact (quiet_copyMember _ _).bind fun _ => quiet_putMember _ _ _

theorem quiet_mergeMember (id : ClassId) (key : String) (member : Member) :
    Quiet (mergeMember id key member) := by
  unfold mergeMember
  split
  · exact .pure _
  · refine .getting fun m => ?_
    dsimp only
    split
    · exact (quiet_copyMember _ _).bind fun _ => quiet_putMember _ _ _
    · split
      · exact (quiet_putMember _ _ _).bind fun _ => .warn _ _ _
      · exact .pure _

/-- Bringing in the members of a mixin that is resolved is quiet. -/
theorem quiet_absorb (id mixin : ClassId) : Quiet (absorb id mixin) :=
  .getting fun _ => (Quiet.forM (fun _ => quiet_mergeMember _ _ _) _).bind fun _ => .note _

/-- Linking a class to a mixin is quiet: only classes that are registered are found. -/
theorem quiet_linkMixin (id : ClassId) (name : String) : Quiet (linkMixin id name) := by
  intro m
  unfold linkMixin
  rw [ends_bind, ends_get]
  dsimp only
  rw [ends_bind, ends_ofReading]
  refine ⟨fun found find => ?_, fun fault _ => ⟨.refl m, rfl⟩⟩
  cases found with
  | none => exact .of_classes_eq rfl rfl
  | some mixin =>
    dsimp only
    split
    · exact .of_classes_eq rfl rfl
    split
    · exact .refl m
    · refine .modifyClass m id (fun _ => rfl) (fun _ => rfl) fun k link => ?_
      refine (List.mem_append.1 link).imp_right fun new => ?_
      rw [TypeRef.linked.inj (List.mem_singleton.1 new)]
      exact lt_of_found? (found?_of_find? find)

theorem quiet_addMember (id : ClassId) (member : Member) : Quiet (addMember id member) := by
  refine .getting fun m => ?_
  dsimp only
  split
  · exact (Quiet.warn _ _ _).bind fun _ => .pure _
  · exact (quiet_putMember _ _ _).bind fun _ => .pure _

theorem quiet_attachMember (id : ClassId) (item : Item) : Quiet (attachMember id item) := by
  refine (Quiet.of_reads (reads_buildMember item id)).bind fun member =>
    (quiet_addMember id member).bind fun added => ?_
  split
  · refine Quiet.bind (.getting fun m => ?_) fun _ => .pure _
    dsimp only
    split
    · exact .warn _ _ _
    · exact .pure _
  · exact .pure _

theorem quiet_lookup (name : String) : Quiet (lookup name) := by
  refine .getting fun m => (Quiet.ofReading _).bind fun slot => ?_
  split
  · exact .pure _
  · exact .throw rfl

/-- Attaching an item is quiet. -/
theorem quiet_attach (entry : ItemEntry) : Quiet (attach entry) := by
  unfold attach
  split
  · exact .throw rfl
  · refine .getting fun m => (Quiet.ofReading _).bind fun ignored => ?_
    split
    · exact .pure _
    · exact .throw rfl
  · exact (Quiet.note _).bind fun _ => .pure _
  · refine .getting fun m => (Quiet.ofReading _).bind fun ignored => ?_
    split
    · exact .pure _
    refine (quiet_lookup _).bind fun found => ?_
    split
    · exact (Quiet.warn _ _ _).bind fun _ => .pure _
    · split
      · exact .pure _
      · exact .throw rfl
      · exact quiet_attachMember _ _

/-- Registering a class moves no class. -/
theorem ends_register_idle (key : String) (record? : Option ClassRecord) (m : Model) :
    Ends (register key record?) m (fun _ m' => m.Idle m') fun error m' =>
      m.Idle m' ∧ error.isOfProgress = false := by
  have idle : ∀ {m' : Model}, m.Registers key m' → m.Idle m' := by
    intro m' registers
    cases registers with
    | unread => exact (Still.refl m).toIdle
    | way _ _ _ classes => exact (Still.refl m).toIdle.of_classes_eq classes
    | added _ _ _ _ classes =>
      exact (idle_addClass m _ rfl fun k mem => by simp [newClass] at mem).of_classes_eq classes
  refine (ends_register key record? m).mono (fun _ _ => idle) ?_
  rintro _ m' ⟨registers, fault, rfl⟩
  exact ⟨idle registers, rfl⟩

/-- A document is assembled under one and the same settings. -/
theorem ends_assemble_settings {settings : Settings} (start : m.settings = settings)
    (document : Document) :
    Ends (assemble document) m (fun _ m' => m'.settings = settings) fun _ _ => True := by
  refine ends_assemble_of (fun _ kept => kept) ?_ (fun {m'} entry kept => ?_) start document
  · rintro m' m'' key kept (_ | ⟨_, same, _, _⟩ | ⟨_, _, same, _, _⟩)
    · exact kept
    · exact same.trans kept
    · exact same.trans kept
  · exact (quiet_attach entry m').mono
      (fun _ _ still => (settings_of_outline_eq still.outline).trans kept) fun _ _ _ => trivial

end Build
end AmbientDecl
