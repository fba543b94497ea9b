/- # Growth

Resolving classes only adds to a model.  In every class the entries of the table of members stay
where they are, with the members that they hold, but a private member may become public; new
entries and new implemented types come after the old ones, and a parent is set once
(`GrowsTo`).  A class that is resolved stays as it is.

These hold between any two models of which one is reached from the other, also by calls that stop
with an error (`Reaches.only_grows`).  That a parent is never changed for another one needs more
than a look at the single steps, since a class whose resolving failed is linked again: the parent
that it has is the one that it names (`Consistent.parent`).
-/

import AmbientDecl.Proofs.Model.Contract
import AmbientDecl.Proofs.Model.Passes
import Mathlib.Data.List.Forall2

namespace AmbientDecl
namespace Model

variable {m m' m'' m₀ : Model} {id parent : ClassId} {own members later : Members} {key : String}
  {entry entry' : String × Member}

/-- An entry of a table and what has become of it: it may have become public. -/
def Kept (entry entry' : String × Member) : Prop :=
  entry' = entry ∨
    entry.2.isPrivate = true ∧ entry' = (entry.1, { entry.2 with isPrivate := false })

/-- The first entries of a table are those of an older one. -/
def Lengthens (own members : Members) : Prop :=
  List.Forall₂ Kept own (members.take own.length)

theorem kept_refl (entry : String × Member) : Kept entry entry := .inl rfl

theorem Kept.trans {entry'' : String × Member} (h : Kept entry entry') (h' : Kept entry' entry'') :
    Kept entry entry'' := by
  rcases h' with rfl | ⟨hidden, rfl⟩
  · exact h
  · rcases h with rfl | ⟨-, rfl⟩
    · exact .inr ⟨hidden, rfl⟩
    · cases hidden

theorem forall₂_kept_trans (h : List.Forall₂ Kept own members)
    (h' : List.Forall₂ Kept members later) : List.Forall₂ Kept own later := by
  induction h generalizing later with
  | nil => exact h'
  | cons first _ ih =>
    obtain ⟨entry, rest, second, others, rfl⟩ := List.forall₂_cons_left_iff.1 h'
    exact .cons (first.trans second) (ih others)

theorem lengthens_append (own added : Members) : Lengthens own (own ++ added) := by
  rw [Lengthens, List.take_left]
  exact List.forall₂_same.2 fun entry _ => kept_refl entry

theorem lengthens_refl (own : Members) : Lengthens own own := by
  have none := lengthens_append own []
  rwa [List.append_nil] at none

theorem Lengthens.trans (h : Lengthens own members) (h' : Lengthens members later) :
    Lengthens own later := by
  have shorter : own.length ≤ members.length := by
    have same := h.length_eq
    rw [List.length_take] at same
    omega
  have first := List.forall₂_take own.length h'
  rw [List.take_take, Nat.min_eq_left shorter] at first
  exact forall₂_kept_trans h first

/-- A member under a new key comes after the others. -/
theorem lengthens_put_new (new : Entries.get? key own = none) (member : Member) :
    Lengthens own (Entries.put key member own) := by
  rw [Entries.put_eq_append new]
  exact lengthens_append own _

/-- A private member becomes public where it stands. -/
theorem lengthens_put_public {member : Member} (there : Entries.get? key own = some member)
    (hidden : member.isPrivate = true) :
    Lengthens own (Entries.put key { member with isPrivate := false } own) := by
  have kept : List.Forall₂ Kept own (Entries.put key { member with isPrivate := false } own) := by
    induction own with
    | nil => cases there
    | cons entry rest ih =>
      obtain ⟨k, existing⟩ := entry
      rw [Entries.get?] at there
      rw [Entries.put]
      split at there
      · rename_i same
        obtain rfl := Option.some.inj there
        rw [if_pos same]
        exact .cons (.inr ⟨hidden, rfl⟩) (List.forall₂_same.2 fun entry _ => kept_refl entry)
      · rename_i ne
        rw [if_neg ne]
        exact .cons (kept_refl _) (ih there)
  rwa [Lengthens, kept.length_eq, List.take_length]

/-- What every step of resolving keeps to. -/
structure Broadens (m m' : Model) : Prop where
  outline : m'.outline = m.outline
  parent : ∀ id, (m'.classAt id).parent? = (m.classAt id).parent? ∨
    (m'.classAt id).parent? = m.parentOf? id
  implemented : ∀ id, (m.classAt id).implemented <+: (m'.classAt id).implemented
  members : ∀ id, Lengthens (m.classAt id).members (m'.classAt id).members

theorem Broadens.of_classAt_eq (outline : m'.outline = m.outline)
    (same : ∀ id, m'.classAt id = m.classAt id) : m.Broadens m' := by
  refine ⟨outline, fun id => .inl ?_, fun id => ?_, fun id => ?_⟩
  · rw [same]
  · simp only [same, List.prefix_refl]
  · simp only [same, lengthens_refl]

theorem Reports.broadens (h : m.Reports m') : m.Broadens m' := .of_classAt_eq h.outline h.classAt

theorem Broadens.trans (h : m.Broadens m') (h' : m'.Broadens m'') : m.Broadens m'' where
  outline := h'.outline.trans h.outline
  parent id := by
    rcases h'.parent id with same | found
    · rw [same]
      exact h.parent id
    · rw [found, parentOf?_of_outline_eq h.outline]
      exact .inr rfl
  implemented id := (h.implemented id).trans (h'.implemented id)
  members id := (h.members id).trans (h'.members id)

instance : IsPreorder Model Broadens where
  refl m := (Reports.refl m).broadens
  trans _ _ _ := Broadens.trans

/-- A change of one class that only adds to the class only adds to the model. -/
theorem broadens_modifyClass (m : Model) (id : ClassId) {change : Class → Class}
    (keeps : ∀ c, (change c).outline = c.outline)
    (parent : (change (m.classAt id)).parent? = (m.classAt id).parent? ∨
      (change (m.classAt id)).parent? = m.parentOf? id)
    (implemented : (m.classAt id).implemented <+: (change (m.classAt id)).implemented)
    (members : Lengthens (m.classAt id).members (change (m.classAt id)).members) :
    m.Broadens (m.modifyClass id change) := by
  have outline := outline_modifyClass m id keeps
  rcases Nat.lt_or_ge id m.classes.length with registered | beyond
  · have seen := fun k => classAt_modifyClass m id k change registered
    refine ⟨outline, fun k => ?_, fun k => ?_, fun k => ?_⟩ <;> rw [seen] <;> split
    · rename_i same
      exact same ▸ parent
    · exact .inl rfl
    · rename_i same
      exact same ▸ implemented
    · exact List.prefix_refl _
    · rename_i same
      exact same ▸ members
    · exact lengthens_refl _
  · rw [modifyClass_of_le beyond]
    exact (Reports.refl m).broadens

end Model

namespace Build

open Model

variable {m : Model} {id parent : ClassId} {enter : ClassId → Build Unit}

theorem broadens_note (entry : LogEntry) : Keeps Broadens (note entry) :=
  fun m => (Reports.of_log m [entry]).broadens

theorem broadens_warn (code message subject : String) :
    Keeps Broadens (warn code message subject) :=
  broadens_note _

theorem broadens_setProgress (id : ClassId) (progress : Progress) :
    Keeps Broadens (setProgress id progress) :=
  fun m => broadens_modifyClass m id (fun _ => rfl) (.inl rfl) (List.prefix_refl _)
    (lengthens_refl _)

/-- A copy is stored under a key that is new: copying does not touch the table. -/
theorem ends_copy_put {key : String} (new : Entries.get? key (m.classAt id).members = none)
    (member : Member) :
    Ends (copyMember member id >>= putMember id key) m (fun _ m' => m.Broadens m')
      fun _ m' => m.Broadens m' := by
  refine Keeps.ends_bind_of (((reads_copyMember member id).consults.reports m).mono ?_ ?_)
  · intro copy m' reports
    refine ⟨reports.broadens, ?_⟩
    rw [← reports.classAt] at new
    exact broadens_modifyClass m' id (fun _ => rfl) (.inl rfl) (List.prefix_refl _)
      (lengthens_put_new new copy)
  · exact fun _ _ reports => reports.broadens

/-- A class is linked to no other parent than the one that it extends. -/
theorem ends_adopt_broadens (extended : m.Extends id parent) :
    Ends (adopt id parent) m (fun _ m' => m.Broadens m') fun _ m' => m.Broadens m' := by
  unfold adopt
  have set : m.Broadens (m.modifyClass id fun c => { c with parent? := some parent }) :=
    broadens_modifyClass m id (fun _ => rfl) (.inr extended.symm) (List.prefix_refl _)
      (lengthens_refl _)
  refine Keeps.ends_bind_of ?_
  rw [ends_modifyClass]
  refine ⟨set, ?_⟩
  generalize m.modifyClass id _ = m₁
  rw [ends_bind, ends_get]
  split
  · exact refl_of Broadens m₁
  · rename_i create _
    split
    · exact refl_of Broadens m₁
    · rename_i new
      exact ends_copy_put (Option.not_isSome_iff_eq_none.1 new) create

theorem ends_linkParent_broadens {name : String} (enters : ∀ k, Keeps Broadens (enter k))
    (named : (m.classAt id).record.parentName? = some name) :
    Ends (linkParent id name enter) m (fun _ m' => m.Broadens m') fun _ m' => m.Broadens m' := by
  unfold linkParent
  rw [ends_bind, ends_get, ends_bind, ends_ofReading]
  refine ⟨fun found find => ?_, fun _ _ => refl_of Broadens m⟩
  cases found with
  | none => exact broadens_warn _ _ _ m
  | some parent =>
    have extended : m.Extends id parent := by
      rw [Extends, parentOf?, named, Option.bind_some, found?_of_find? find]
    refine Keeps.ends_bind_of ((enters parent m).mono (fun _ m' first => ⟨first, ?_⟩)
      fun _ _ first => first)
    refine ends_adopt_broadens ?_
    rwa [Extends, parentOf?_of_outline_eq first.outline]

theorem broadens_linkMixin (id : ClassId) (name : String) : Keeps Broadens (linkMixin id name) := by
  refine .getting fun m => ?_
  dsimp only
  refine (Keeps.of_reading _).bind fun found => ?_
  cases found with
  | none => exact broadens_warn _ _ _
  | some mixin =>
    dsimp only
    split
    · exact broadens_warn _ _ _
    split
    · exact .pure _
    · exact fun m => broadens_modifyClass m id (fun _ => rfl) (.inl rfl) (List.prefix_append ..)
        (lengthens_refl _)

/-- A member of a mixin is stored under a new key, or it makes a member public. -/
theorem broadens_mergeMember (id : ClassId) (key : String) (member : Member) :
    Keeps Broadens (mergeMember id key member) := by
  unfold mergeMember
  split
  · exact .pure _
  intro m
  rw [ends_bind, ends_get]
  dsimp only
  split
  · exact ends_copy_put ‹_› member
  · rename_i existing there
    split
    · rename_i hidden
      refine Keeps.ends_bind_of ⟨?_, broadens_warn _ _ _ _⟩
      exact broadens_modifyClass m id (fun _ => rfl) (.inl rfl) (List.prefix_refl _)
        (lengthens_put_public there hidden)
    · exact refl_of Broadens m

theorem broadens_absorb (id mixin : ClassId) : Keeps Broadens (absorb id mixin) :=
  .getting fun _ =>
    (Keeps.forM (fun _ => broadens_mergeMember _ _ _) _).bind fun _ => broadens_note _

/-- Linking a class only adds to a model if the way to other classes does. -/
theorem broadens_link (id : ClassId) {enter : ClassId → Build Unit}
    (enters : ∀ k, Keeps Broadens (enter k)) :
    Keeps Broadens (link id enter) := by
  intro m
  unfold link
  rw [ends_bind, ends_get]
  dsimp only
  have keeps : ∀ c : Class, ({ c with isNamespace := m.tree.contains (Forest.path c.fullName) } :
      Class).outline = c.outline := fun _ => rfl
  have record : ((m.modifyClass id fun c =>
      { c with isNamespace := m.tree.contains (Forest.path c.fullName) }).classAt id).record =
        (m.classAt id).record := record_of_outline_eq (outline_modifyClass m id keeps) id
  refine Keeps.ends_bind_of ?_
  rw [ends_modifyClass]
  refine ⟨broadens_modifyClass m id keeps (.inl rfl) (List.prefix_refl _) (lengthens_refl _), ?_⟩
  have rest : Keeps Broadens (do
      (← orFault .unfit (m.classAt id).record.usedNames?).forM (linkMixin id)
      (((← get).classAt id).implemented.filterMap TypeRef.target?).forM fun mixin =>
        mergeMixin id mixin enter) := by
    refine (Keeps.orFault _ _).bind fun names => ?_
    refine (Keeps.forM (broadens_linkMixin id) names).bind fun _ => .getting fun m' => ?_
    exact .forM (fun mixin => (enters mixin).bind fun _ => broadens_absorb id mixin) _
  split
  · rename_i name named
    rw [← record] at named
    refine Keeps.ends_bind_of ((ends_linkParent_broadens enters named).mono ?_
      fun _ _ first => first)
    exact fun _ m' first => ⟨first, rest m'⟩
  · exact rest _

/-- **Resolving a class only adds to a model,** from every model and however it ends. -/
theorem broadens_resolve (id : ClassId) : Keeps Broadens (resolve id) :=
  .resolve broadens_setProgress broadens_link id

theorem broadens_resolveAll (ids : List ClassId) : Keeps Broadens (resolveAll ids) :=
  .forM broadens_resolve ids

end Build

namespace Model

open Build

variable {m m' m'' m₀ : Model} {id : ClassId}

/-- What resolving has left of a model, and what it may have added. -/
structure GrowsTo (m m' : Model) : Prop where
  tree : m'.tree = m.tree
  /-- Every name leads to the class to which it led. -/
  registry : m'.find? = m.find?
  length : m'.classes.length = m.classes.length
  outline : ∀ id, (m'.classAt id).outline = (m.classAt id).outline
  log : m.log <+: m'.log
  parent : ∀ id, (m'.classAt id).parent? = (m.classAt id).parent? ∨
    (m.classAt id).parent? = none ∧
      ∃ parent, (m'.classAt id).parent? = some parent ∧ m.Extends id parent
  implemented : ∀ id, (m.classAt id).implemented <+: (m'.classAt id).implemented
  members : ∀ id, Lengthens (m.classAt id).members (m'.classAt id).members
  resolved : ∀ id, m.IsResolved id → m'.classAt id = m.classAt id

/-- In a consistent model a parent that is set is the one that the class extends, so it stays. -/
theorem Broadens.growsTo {origin : Origin} (h : m.Broadens m') (advances : m.Advances m')
    (consistent : Consistent origin m) : m.GrowsTo m' where
  tree := tree_of_outline_eq h.outline
  registry := funext (find?_of_outline_eq h.outline)
  length := length_classes_of_outline_eq h.outline
  outline := class_outline_of_outline_eq h.outline
  log := advances.log
  parent id := by
    rcases h.parent id with same | found
    · exact .inl same
    rcases consistent.parent id with orphan | child
    · rw [orphan]
      cases extended : m.parentOf? id with
      | none => exact .inl (found.trans extended)
      | some parent => exact .inr ⟨rfl, parent, found.trans extended, extended⟩
    · exact .inl (found.trans child.symm)
  implemented := h.implemented
  members := h.members
  resolved _ := advances.classAt_eq

/-- A call that resolves classes moves on, however it ends. -/
theorem Reaches.advances (h : m.Reaches m') (start : Consistent anyOrigin m) : m.Advances m' := by
  induction h with
  | start => exact .refl m
  | resolve before registered ih =>
    exact ih.trans ((Build.ends_resolve (before.consistent start) registered).after
      (fun _ _ h => h.2.1) fun _ _ h => h.2)
  | resolveAll before registered ih =>
    exact ih.trans ((Build.ends_resolveAll (before.consistent start) registered).after
      (fun _ _ h => h.2) fun _ _ h => h.2)

theorem Reaches.broadens (h : m.Reaches m') : m.Broadens m' := by
  induction h with
  | start => exact refl_of Broadens m
  | @resolve m' id _ _ ih => exact ih.trans ((broadens_resolve id).after m')
  | @resolveAll m' ids _ _ ih => exact ih.trans ((broadens_resolveAll ids).after m')

/-- **Resolving only adds to a model, and what is resolved stays as it is.**  Let classes of an
assembled model be resolved by any calls, and then by further calls, where each of them may stop
with an error.  From the model after the first calls to the model after the further ones

* the tree, the registry, the number of classes and the outline of each class are the same,
* the table of members of a class is the old one, in which private members may have become public,
  followed by new entries,
* the types that a class implements are the old ones followed by new ones,
* the parent of a class is the old one, or there was none and it is the class that it extends, and
* a class that was resolved is the same in all respects. -/
theorem Reaches.only_grows {settings : Settings} {document : Document}
    (assembled : (assemble document).run (empty settings) = .ok () m₀)
    (reached : m₀.Reaches m) (further : m.Reaches m') : m.GrowsTo m' := by
  have start := (ends_assemble (unlinked_empty settings) document).of_ok assembled
  have consistent := reached.consistent start.consistent
  exact further.broadens.growsTo (further.advances consistent) consistent

/-- `A` uses `M` and `N`, and `N` extends itself.  The member of `A` is private, and `M` has a
public one of the same name. -/
def halfMerged : Document := .ofFields [
  ("classes", .obj [
    ("A", .obj [("uses", .arr [.str "M", .str "N"])]),
    ("M", .obj []),
    ("N", .obj [("extends", .str "N")])]),
  ("classitems", .arr [
    .obj [("class", .str "A"), ("name", .str "isOpen"), ("itemtype", .str "property"),
      ("access", .str "private")],
    .obj [("class", .str "M"), ("name", .str "isOpen"), ("itemtype", .str "property")],
    .obj [("class", .str "M"), ("name", .str "size"), ("itemtype", .str "property")]])]

/-- The model after the call for `M`. -/
def halfStart : Model := after (resolve 1) (after (assemble halfMerged) (empty .blank))

/-- The model after the further call for `A`, which fails at `N`. -/
def halfEnd : Model := after (resolve 0) halfStart

/-- The call for `A` fails after the members of `M` were merged: the private member has become
public at its place, the other one is new, and `M` is as it was. -/
theorem growsTo_halfMerged : value (resolve 0) halfStart = .error (.cycle ["N", "N"]) ∧
    halfStart.GrowsTo halfEnd ∧ halfStart.IsResolved 1 ∧
    ¬ halfStart.Offers 0 "isOpen" ∧ halfEnd.Offers 0 "isOpen" ∧
    Entries.keys (halfStart.classAt 0).members = ["isOpen"] ∧
    Entries.keys (halfEnd.classAt 0).members = ["isOpen", "size"] := by
  have assembled : (assemble halfMerged).run (empty .blank) =
      .ok () (after (assemble halfMerged) (empty .blank)) := run_of_succeeds (by decide +kernel)
  have reached : (after (assemble halfMerged) (empty .blank)).Reaches halfStart :=
    .resolve .start (by decide +kernel)
  have further : halfStart.Reaches halfEnd := .resolve .start (by decide +kernel)
  exact ⟨by decide +kernel, Reaches.only_grows assembled reached further, by decide +kernel,
    by decide +kernel, by decide +kernel, by decide +kernel, by decide +kernel⟩

end Model
end AmbientDecl
