/- # Linking a class to its parent

The way to another class is a parameter of linking.  `LinkRule` lists what has to be known of it
and of a statement on models that is to be kept.  Linking a class to the class that it extends
keeps the statement, and the class gets the factory of its parent (`ends_linkParent`).
-/

import AmbientDecl.Proofs.Model.Linked

namespace AmbientDecl
namespace Build

open Model

/-- What has to be known of the way `enter` to another class, while the class `id` is linked,
which was `start` before: a statement `Pre` on models is kept by all steps, and an error leaves
what `Fail` says. -/
structure LinkRule (id : ClassId) (start : Class) (enter : ClassId → Build Unit)
    (Pre : Model → Prop) (Fail : BuildError → Model → Prop) : Prop where
  sound : ∀ m, Pre m → m.Sound
  own : ∀ m m', Pre m → m.Changes id m' → Pre m'
  stops : ∀ m error, Pre m → m.Stops id error → Fail error m
  parent : ∀ m k, Pre m → m.IsResolving id → m.Extends id k →
    Ends (enter k) m
      (fun _ m' => Pre m' ∧ m.Advances m' ∧ m.NoneEntered m' ∧ m'.IsResolved k) Fail
  mixin : ∀ m k, Pre m → m.IsResolving id →
    (.linked k ∈ start.implemented ∨ k ∈ m.mixinsOf id ∧ ¬ m.IsResolving k) →
    Ends (enter k) m
      (fun _ m' => Pre m' ∧ m.Advances m' ∧ m.NoneEntered m' ∧ m'.IsResolved k) Fail

variable {id : ClassId} {start : Class} {enter : ClassId → Build Unit} {Pre : Model → Prop}
  {Fail : BuildError → Model → Prop} {m : Model}

/-- What linking a class to its parent makes of it. -/
def LinksParent (id : ClassId) (m m' : Model) : Prop :=
  m.Passes id m' ∧ (∀ p, m.Extends id p → m'.IsResolved p) ∧
    ∃ members, m'.parentMembers id (m.classAt id).members (m.parentOf? id) = .ok members ∧
      m'.classAt id = { m.classAt id with parent? := m.parentOf? id, members }

/-- A class whose parent leads to no class keeps what it is. -/
theorem linksParent_of_none {m' : Model} (reports : m.Reports m') (resolving : m.IsResolving id)
    (orphan : (m.classAt id).parent? = none ∨ (m.classAt id).parent? = m.parentOf? id)
    (none : m.parentOf? id = none) : LinksParent id m m' := by
  refine ⟨(reports.changes id).passes resolving, fun p found => ?_, (m.classAt id).members, ?_, ?_⟩
  · exact absurd (none.symm.trans found) (by simp)
  · rw [none]
    rfl
  · have same : (m.classAt id).parent? = m.parentOf? id := by
      rcases orphan with h | h
      · rw [h, none]
      · exact h
    rw [reports.classAt, ← same]

/-- The factory of a parent is declared again as the computation says. -/
theorem ends_factory (rule : LinkRule id start enter Pre Fail) (registered : id < m.classes.length)
    (pre : Pre m) (p : ClassId) :
    Ends (match Entries.get? Member.createKey (m.classAt p).members with
        | none => pure ()
        | some create =>
          if (Entries.get? Member.createKey (m.classAt id).members).isSome then pure ()
          else do putMember id Member.createKey (← copyMember create id)) m
      (fun _ m' => Pre m' ∧ ∃ members,
        m.withFactory id (m.classAt id).members (m.classAt p).members = .ok members ∧
          SetsMembers id members m m') Fail := by
  cases create? : Entries.get? Member.createKey (m.classAt p).members with
  | none =>
    refine ⟨pre, (m.classAt id).members, ?_, (Reports.refl m).setsMembers id⟩
    rw [withFactory, create?]
  | some create =>
    dsimp only
    by_cases there : (Entries.get? Member.createKey (m.classAt id).members).isSome = true
    · rw [if_pos there, ends_pure]
      refine ⟨pre, (m.classAt id).members, ?_, (Reports.refl m).setsMembers id⟩
      simp only [withFactory, create?]
      rw [if_pos there]
    · rw [if_neg there]
      have source := (rule.sound m pre).entry p _ (Entries.mem_of_get? create?)
      refine (ends_copyMember_put registered source).mono ?_ ?_
      · rintro - m' ⟨copy, copied, sets⟩
        refine ⟨rule.own _ _ pre sets.1, _, ?_, sets⟩
        simp only [withFactory, create?]
        rw [if_neg there, copied]
        rfl
      · rintro error m' ⟨refused, reports⟩
        refine rule.stops m' _ (rule.own _ _ pre (reports.changes id)) ?_
        exact (Stops.copy source.buildable refused).of_outline_eq reports.outline

theorem changes_setParent {p : ClassId} (registered : id < m.classes.length)
    (extended : m.Extends id p) :
    m.Changes id (m.modifyClass id fun c => { c with parent? := some p }) :=
  changes_modifyClass registered (fun _ => rfl) (fun _ => rfl) (.inr extended.symm) (fun _ => .inl)
    (sound_modifyClass registered (fun _ => rfl) fun _ => rfl)

/-- A class that is linked to its parent, which is resolved, gets the factory of the parent. -/
theorem linksParent_of_factory {p : ClassId} {members : Members} {m₁ m₂ : Model}
    (extended : m.Extends id p) (passes : m.Passes id m₁) (resolved : m₁.IsResolved p)
    (own : m₁.classAt id = { m.classAt id with parent? := some p })
    (factory : m₁.withFactory id (m₁.classAt id).members (m₁.classAt p).members = .ok members)
    (sets : SetsMembers id members m₁ m₂) : LinksParent id m m₂ := by
  have passes' := sets.1.passes passes.resolving
  have same : m₂.classAt p = m₁.classAt p := passes'.classAt_eq passes.resolving resolved
  have parentOf : m.parentOf? id = some p := extended
  refine ⟨passes.trans passes', fun q found => ?_, members, ?_, ?_⟩
  · obtain rfl := Option.some.inj (parentOf.symm.trans found)
    exact resolved.congr same
  · rw [own] at factory
    rw [parentOf, parentMembers, same, withFactory_of_outline_eq passes'.outline, factory]
  · rw [sets.2, own, parentOf]

/-- Linking a class to its parent. -/
theorem ends_linkParent (rule : LinkRule id start enter Pre Fail)
    (registered : id < m.classes.length) (resolving : m.IsResolving id) (pre : Pre m)
    {name : String} (named : (m.classAt id).record.parentName? = some name)
    (orphan : (m.classAt id).parent? = none ∨ (m.classAt id).parent? = m.parentOf? id) :
    Ends (linkParent id name enter) m (fun _ m' => Pre m' ∧ LinksParent id m m') Fail := by
  unfold linkParent
  rw [ends_bind, ends_get, ends_bind, ends_ofReading]
  refine ⟨fun found find => ?_, fun fault find => rule.stops m _ pre (.lookup find)⟩
  have parentOf : m.parentOf? id = found := by
    rw [parentOf?, named]
    exact found?_of_find? find
  cases found with
  | none =>
    have reports := Reports.of_log m [.warning ⟨Diagnostic.unresolvedExtends,
      "Can't find extended class; child=" ++ m.fullName id ++ " parent=" ++ name, m.fullName id⟩]
    exact ⟨rule.own _ _ pre (reports.changes id),
      linksParent_of_none reports resolving orphan parentOf⟩
  | some p =>
    rw [ends_bind]
    refine (rule.parent m p pre resolving parentOf).mono ?_ fun _ _ h => h
    rintro - m₁ ⟨pre₁, advances, noneEntered, resolved⟩
    have passes : m.Passes id m₁ := advances.passes noneEntered resolving
    have registered₁ : id < m₁.classes.length := by
      rwa [length_classes_of_outline_eq advances.outline]
    have extended₁ : m₁.Extends id p := by
      rwa [Extends, parentOf?_of_outline_eq advances.outline]
    unfold adopt
    rw [ends_bind, ends_modifyClass, ends_bind, ends_get]
    have changes := changes_setParent registered₁ extended₁
    have own := classAt_modifyClass_self registered₁ fun c => { c with parent? := some p }
    rw [advances.begun id resolving.not_isUnresolved] at own
    generalize m₁.modifyClass id _ = m₂ at changes own ⊢
    have passes₂ : m.Passes id m₂ := passes.trans (changes.passes passes.resolving)
    have resolved₂ : m₂.IsResolved p := by
      refine resolved.congr (changes.others p fun same => ?_)
      exact (same ▸ resolved).not_isResolving passes.resolving
    have registered₂ : id < m₂.classes.length := by
      rwa [length_classes_of_outline_eq changes.outline]
    refine (ends_factory rule registered₂ (rule.own _ _ pre₁ changes) p).mono ?_ fun _ _ h => h
    rintro - m₃ ⟨pre₃, members, factory, sets⟩
    exact ⟨pre₃, linksParent_of_factory parentOf passes₂ resolved₂ own factory sets⟩

end Build
end AmbientDecl
