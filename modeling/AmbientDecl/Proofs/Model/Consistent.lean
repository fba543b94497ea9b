/- # Consistent models

A model is **consistent** when its members are sound, when classes are linked to no other classes
than those they name, and when every class that is resolved is settled and was linked as
`AmbientDecl.Proofs.Model.Linking` says.

Resolving a class keeps a model consistent, however it ends (`ends_resolveWithin`).  What has begun
stays as it is: only classes whose linking had not begun are changed.
-/

import AmbientDecl.Proofs.Model.Linking

namespace AmbientDecl
namespace Model

/-- A condition on what a class was when its linking began and on the classes that were being
resolved then. -/
abbrev Origin := ClassId → Class → (ClassId → Bool) → Prop

/-- The origin of which nothing is asked. -/
def anyOrigin : Origin := fun _ _ _ => True

/-- What holds of a model before and after each resolving of a class. -/
structure Consistent (origin : Origin) (m : Model) : Prop where
  sound : m.Sound
  parent : ∀ id, (m.classAt id).parent? = none ∨ (m.classAt id).parent? = m.parentOf? id
  mixins : ∀ id other, .linked other ∈ (m.classAt id).implemented → other ∈ m.mixinsOf id
  settled : ∀ id, m.IsResolved id → m.Settled id
  linked : ∀ id, m.IsResolved id → ∃ start busy, origin id start busy ∧ m.Linked start busy id

variable {m m' : Model} {own id : ClassId} {origin : Origin}

/-- A class stays linked while it and the classes that it is linked to keep what they are. -/
theorem Linked.congr {start : Class} {busy : ClassId → Bool} (h : m.Linked start busy id)
    (outline : m'.outline = m.outline) (log : m.log <+: m'.log)
    (same : ∃ progress, m'.classAt id = { m.classAt id with progress })
    (others : ∀ k, m.HasLink id k → m'.classAt k = m.classAt k) : m'.Linked start busy id := by
  obtain ⟨progress, same⟩ := same
  obtain ⟨members, factory, merged⟩ := h.members
  have linked : ∀ k ∈ (m.classAt id).implemented.filterMap TypeRef.target?,
      m'.classAt k = m.classAt k := by
    exact fun k mem => others k (.inr (TypeRef.mem_filterMap_target?.1 mem))
  refine ⟨?_, ?_, ⟨members, ?_, ?_⟩, ?_, fun mixin mem being => ?_⟩
  · rw [same, parentOf?_of_outline_eq outline]
    exact h.parent
  · rw [same, mixinsOf_of_outline_eq outline]
    exact h.implemented
  · rw [parentOf?_of_outline_eq outline, parentMembers_congr outline, factory]
    exact fun p found => others p (.inl (h.parent.trans found))
  · rw [same, mixinMembers_congr outline linked]
    exact merged
  · rw [same, tree_of_outline_eq outline]
    exact h.isNamespace
  · rw [mixinsOf_of_outline_eq outline] at mem
    rw [cyclicMixin, fullName_of_outline_eq outline, fullName_of_outline_eq outline]
    exact (List.IsPrefix.filterMap _ log).subset (h.reported mixin mem being)

/-- A consistent model stays consistent when a class is changed that is not resolved before or
after. -/
theorem Consistent.change (h : Consistent origin m) (beside : m.AdvancesBeside own m')
    (before : ¬ m.IsResolved own) (after : ¬ m'.IsResolved own)
    (others : ∀ id, id ≠ own → m'.classAt id = m.classAt id) (sound : m'.Sound)
    (parent : (m'.classAt own).parent? = (m.classAt own).parent? ∨
      (m'.classAt own).parent? = m.parentOf? own)
    (mixins : ∀ other, .linked other ∈ (m'.classAt own).implemented →
      .linked other ∈ (m.classAt own).implemented ∨ other ∈ m.mixinsOf own) :
    Consistent origin m' where
  sound := sound
  parent id := by
    rw [parentOf?_of_outline_eq beside.outline]
    by_cases ne : id = own
    · subst ne
      rcases parent with same | found
      · rw [same]
        exact h.parent id
      · exact .inr found
    · rw [others id ne]
      exact h.parent id
  mixins id other link := by
    rw [mixinsOf_of_outline_eq beside.outline]
    by_cases ne : id = own
    · subst ne
      exact (mixins other link).elim (h.mixins id other) fun named => named
    · rw [others id ne] at link
      exact h.mixins id other link
  settled id resolved := by
    have ne : id ≠ own := fun same => after (same ▸ resolved)
    exact (h.settled id (resolved.congr (others id ne).symm)).congr
      fun k done => beside.classAt_eq before done
  linked id resolved := by
    have ne : id ≠ own := fun same => after (same ▸ resolved)
    have done := resolved.congr (others id ne).symm
    obtain ⟨start, busy, begun, linked⟩ := h.linked id done
    refine ⟨start, busy, begun, ?_⟩
    refine linked.congr beside.outline beside.log ⟨_, others id ne⟩ fun k link => ?_
    exact beside.classAt_eq before ((h.settled id done).link link).resolved

/-- A consistent model stays consistent while a class is linked. -/
theorem Consistent.changes (h : Consistent origin m) (changes : m.Changes own m')
    (unfinished : ¬ m.IsResolved own) : Consistent origin m' := by
  refine h.change changes.beside unfinished ?_ changes.others (changes.sound h.sound)
    changes.parent changes.mixins
  rwa [IsResolved, changes.progress]

/-- The progress of the class `own` is set, and nothing else changes. -/
structure SetsProgress (own : ClassId) (progress : Progress) (m m' : Model) : Prop where
  outline : m'.outline = m.outline
  log : m.log <+: m'.log
  others : ∀ id, id ≠ own → m'.classAt id = m.classAt id
  self : m'.classAt own = { m.classAt own with progress }
  sound : m.Sound → m'.Sound

theorem setsProgress_modifyClass (registered : own < m.classes.length) (progress : Progress) :
    SetsProgress own progress m (m.modifyClass own fun c => { c with progress }) where
  outline := outline_modifyClass m own fun _ => rfl
  log := List.prefix_refl _
  others _ := classAt_modifyClass_of_ne registered _
  self := classAt_modifyClass_self registered _
  sound := sound_modifyClass registered (fun _ => rfl) fun _ => rfl

theorem SetsProgress.isResolving (h : SetsProgress own .resolving m m') : m'.IsResolving own := by
  rw [IsResolving, h.self]

theorem SetsProgress.isResolved (h : SetsProgress own .resolved m m') : m'.IsResolved own := by
  rw [IsResolved, h.self]

theorem SetsProgress.beside {progress : Progress} (h : SetsProgress own progress m m') :
    m.AdvancesBeside own m' :=
  ⟨h.outline, h.log, fun id ne _ => h.others id ne⟩

/-- When a new class goes on the stack, the classes below it stay on it. -/
theorem SetsProgress.isResolving_push (h : SetsProgress own .resolving m m')
    {stack : List ClassId} (resolving : ∀ k, m.IsResolving k ↔ k ∈ stack) (k : ClassId) :
    m'.IsResolving k ↔ k ∈ stack ++ [own] := by
  have self := h.isResolving
  by_cases ne : k = own
  · subst ne
    exact ⟨fun _ => by simp, fun _ => self⟩
  · rw [IsResolving, h.others k ne, List.mem_append, List.mem_singleton]
    exact (resolving k).trans ⟨.inl, fun mem => mem.resolve_right ne⟩

/-- When a class leaves the stack, the classes below it stay on it. -/
theorem SetsProgress.isResolving_pop {progress : Progress} (h : SetsProgress own progress m m')
    {stack : List ClassId} (resolving : ∀ k, m.IsResolving k ↔ k ∈ stack ++ [own])
    (nodup : (stack ++ [own]).Nodup) (idle : progress ≠ .resolving) (k : ClassId) :
    m'.IsResolving k ↔ k ∈ stack := by
  have off : own ∉ stack := fun mem =>
    (List.nodup_append.1 nodup).2.2 own mem own (List.mem_singleton.2 rfl) rfl
  by_cases ne : k = own
  · subst ne
    rw [IsResolving, h.self]
    exact ⟨fun being => absurd being idle, fun mem => absurd mem off⟩
  · rw [IsResolving, h.others k ne]
    refine (resolving k).trans ⟨fun mem => ?_, fun mem => List.mem_append_left _ mem⟩
    exact (List.mem_append.1 mem).resolve_right fun last => ne (List.mem_singleton.1 last)

/-- A class that is new is not on the stack. -/
theorem IsUnresolved.nodup_push {stack : List ClassId} (new : m.IsUnresolved own)
    (resolving : ∀ k, m.IsResolving k ↔ k ∈ stack) (nodup : stack.Nodup) :
    (stack ++ [own]).Nodup := by
  have off : own ∉ stack := fun mem => ((resolving own).2 mem).not_isUnresolved new
  refine List.nodup_append.2 ⟨nodup, List.pairwise_singleton _ own, fun k mem k' mem' same => ?_⟩
  rw [same, List.mem_singleton.1 mem'] at mem
  exact off mem

/-- The progress of a class can be set while its linking is not done. -/
theorem Consistent.setProgress (h : Consistent origin m) (unfinished : ¬ m.IsResolved own)
    {progress : Progress} (sets : SetsProgress own progress m m') (still : progress ≠ .resolved) :
    Consistent origin m' := by
  refine h.change sets.beside unfinished ?_ sets.others (sets.sound h.sound) ?_ fun _ link => ?_
  · rw [IsResolved, sets.self]
    exact still
  · exact .inl (by rw [sets.self])
  · exact .inl (by rwa [sets.self] at link)

/-- A class that is linked can be marked as resolved. -/
theorem Consistent.finish (h : Consistent origin m) (unfinished : ¬ m.IsResolved own)
    (sets : SetsProgress own .resolved m m') {start : Class} {busy : ClassId → Bool}
    (begun : origin own start busy) (linked : m.Linked start busy own)
    (links : ∀ k, m.HasLink own k → m.IsResolved k) : Consistent origin m' := by
  have kept : ∀ id, m.IsResolved id → m'.classAt id = m.classAt id := fun id done =>
    sets.beside.classAt_eq unfinished done
  have same_links : ∀ k, m'.HasLink own k ↔ m.HasLink own k := fun k => by
    rw [HasLink, HasLink, sets.self]
  refine ⟨sets.sound h.sound, fun id => ?_, fun id other link => ?_, fun id resolved => ?_,
    fun id resolved => ?_⟩
  · rw [parentOf?_of_outline_eq sets.outline]
    by_cases ne : id = own
    · rw [ne, sets.self]
      exact h.parent own
    · rw [sets.others id ne]
      exact h.parent id
  · rw [mixinsOf_of_outline_eq sets.outline]
    by_cases ne : id = own
    · rw [ne, sets.self] at link
      exact ne ▸ h.mixins own other link
    · rw [sets.others id ne] at link
      exact h.mixins id other link
  · by_cases ne : id = own
    · subst ne
      refine .intro id resolved fun k link => ?_
      exact (h.settled k (links k ((same_links k).1 link))).congr kept
    · exact (h.settled id (resolved.congr (sets.others id ne).symm)).congr kept
  · by_cases ne : id = own
    · subst ne
      refine ⟨start, busy, begun, ?_⟩
      exact linked.congr sets.outline sets.log ⟨_, sets.self⟩ fun k link => kept k (links k link)
    · have done := resolved.congr (sets.others id ne).symm
      obtain ⟨start, busy, begun, linked⟩ := h.linked id done
      refine ⟨start, busy, begun, ?_⟩
      refine linked.congr sets.outline sets.log ⟨_, sets.others id ne⟩ fun k link => ?_
      exact kept k ((h.settled id done).link link).resolved

end Model

namespace Build

open Model

variable {m : Model} {id : ClassId}

/-- How the resolving of a new class ends, by how its linking ends. -/
theorem ends_resolveNew {body : Build Unit} {done : Unit → Model → Prop}
    {failed : BuildError → Model → Prop} (registered : id < m.classes.length)
    (h : ∀ m₁, SetsProgress id .resolving m m₁ → Ends body m₁
      (fun _ m₂ => id < m₂.classes.length ∧ ∀ m₃, SetsProgress id .resolved m₂ m₃ → done () m₃)
      fun error m₂ => id < m₂.classes.length ∧ (error.isFinding = false → failed error m₂) ∧
        (error.isFinding = true → ∀ m₃, SetsProgress id .unresolved m₂ m₃ → failed error m₃)) :
    Ends (resolveNew id body) m done failed := by
  unfold resolveNew setProgress
  rw [ends_bind, ends_modifyClass, ends_bind, ends_tryCatch]
  refine (h _ (setsProgress_modifyClass registered _)).mono ?_ ?_
  · rintro - m₂ ⟨registered₂, next⟩
    exact next _ (setsProgress_modifyClass registered₂ _)
  · rintro error m₂ ⟨registered₂, fault, finding⟩
    dsimp only
    split
    · rename_i isFinding
      rw [ends_bind, ends_modifyClass]
      exact finding isFinding _ (setsProgress_modifyClass registered₂ _)
    · rename_i isFault
      exact fault (Bool.eq_false_iff.2 isFault)

/-- How reaching a class ends, by how far its linking has come. -/
theorem ends_reach {stack : List ClassId} {whenNew : Build Unit} {done : Unit → Model → Prop}
    {failed : BuildError → Model → Prop} (resolved : m.IsResolved id → done () m)
    (resolving : m.IsResolving id → Ends (throwCycle stack id) m done failed)
    (unresolved : m.IsUnresolved id → Ends whenNew m done failed) :
    Ends (reach stack id whenNew) m done failed := by
  unfold reach
  rw [ends_bind, ends_get]
  split
  · exact resolved ‹_›
  · exact resolving ‹_›
  · exact unresolved ‹_›

/-- Finding a class in the middle of its linking is an error and changes nothing. -/
theorem ends_throwCycle {stack : List ClassId} {done : Unit → Model → Prop}
    {failed : BuildError → Model → Prop} (h : ∀ error, failed error m) :
    Ends (throwCycle stack id) m done failed := by
  unfold throwCycle
  rw [ends_bind, ends_get]
  split <;> exact h _

/-- Linking a class keeps a model consistent, if the way to other classes does. -/
theorem consistent_linkRule (id : ClassId) {enter : ClassId → Build Unit}
    (rule : ∀ m k, Consistent anyOrigin m → k < m.classes.length → Ends (enter k) m
      (fun _ m' => Consistent anyOrigin m' ∧ m.Advances m' ∧ m.NoneEntered m' ∧ m'.IsResolved k)
      fun _ m' => Consistent anyOrigin m' ∧ m.Advances m')
    (consistent : Consistent anyOrigin m) :
    LinkRule id (m.classAt id) enter
      (fun m' => Consistent anyOrigin m' ∧ m.AdvancesBeside id m' ∧ m'.IsResolving id)
      fun _ m' => Consistent anyOrigin m' ∧ m.AdvancesBeside id m' ∧ m'.IsResolving id := by
  have step : ∀ m' k, Consistent anyOrigin m' ∧ m.AdvancesBeside id m' ∧ m'.IsResolving id →
      k < m'.classes.length → Ends (enter k) m'
        (fun _ m'' => (Consistent anyOrigin m'' ∧ m.AdvancesBeside id m'' ∧ m''.IsResolving id) ∧
          m'.Advances m'' ∧ m'.NoneEntered m'' ∧ m''.IsResolved k)
        fun _ m'' => Consistent anyOrigin m'' ∧ m.AdvancesBeside id m'' ∧ m''.IsResolving id := by
    rintro m' k ⟨consistent', beside, resolving⟩ registered
    have later : ∀ m'', m'.Advances m'' → m.AdvancesBeside id m'' ∧ m''.IsResolving id :=
      fun m'' advances => ⟨beside.trans (advances.beside id),
        resolving.congr (advances.begun id resolving.not_isUnresolved)⟩
    refine (rule m' k consistent' registered).mono ?_ ?_
    · rintro - m'' ⟨consistent'', advances, noneEntered, resolved⟩
      exact ⟨⟨consistent'', later m'' advances⟩, advances, noneEntered, resolved⟩
    · rintro - m'' ⟨consistent'', advances⟩
      exact ⟨consistent'', later m'' advances⟩
  refine ⟨fun m' h => h.1.sound, ?_, fun m' error h _ => h, ?_, ?_⟩
  · rintro m' m'' ⟨consistent', beside, resolving⟩ changes
    exact ⟨consistent'.changes changes fun done => done.not_isResolving resolving,
      beside.trans changes.beside, changes.progress.trans resolving⟩
  · intro m' k h _ extended
    exact step m' k h extended.lt
  · intro m' k h _ linked
    have used : k ∈ m'.mixinsOf id := by
      rcases linked with linked | linked
      · rw [mixinsOf_of_outline_eq h.2.1.outline]
        exact consistent.mixins id k linked
      · exact linked.1
    exact step m' k h (Names.lt (.inr used))

/-- **Resolving a class keeps a model consistent,** whether it ends well or not, and leaves alone
every class whose linking had begun.  When it ends well the class is resolved, and no class is left
in the middle of its linking. -/
theorem ends_resolveWithin (room : Nat) (stack : List ClassId) (consistent : Consistent anyOrigin m)
    (registered : id < m.classes.length) :
    Ends (resolveWithin room stack id) m
      (fun _ m' => Consistent anyOrigin m' ∧ m.Advances m' ∧ m.NoneEntered m' ∧ m'.IsResolved id)
      fun _ m' => Consistent anyOrigin m' ∧ m.Advances m' := by
  induction room generalizing stack id m with
  | zero =>
    refine ends_reach (fun resolved => ?_) (fun _ => ?_) fun _ => ?_
    · exact ⟨consistent, .refl m, .refl m, resolved⟩
    · exact ends_throwCycle fun _ => ⟨consistent, .refl m⟩
    · exact ⟨consistent, .refl m⟩
  | succ room ih =>
    refine ends_reach (fun resolved => ?_) (fun _ => ?_) fun unresolved => ?_
    · exact ⟨consistent, .refl m, .refl m, resolved⟩
    · exact ends_throwCycle fun _ => ⟨consistent, .refl m⟩
    refine ends_resolveNew registered fun m₁ enters => ?_
    have unfinished : ¬ m.IsResolved id := fun done => done.not_isUnresolved unresolved
    have consistent₁ := consistent.setProgress unfinished enters (by decide)
    have resolving₁ := enters.isResolving
    have registered₁ : id < m₁.classes.length := by
      rwa [length_classes_of_outline_eq enters.outline]
    have rule := consistent_linkRule id (fun _ _ consistent registered =>
      ih (stack ++ [id]) consistent registered) consistent₁
    have pre : Consistent anyOrigin m₁ ∧ m₁.AdvancesBeside id m₁ ∧ m₁.IsResolving id :=
      ⟨consistent₁, (Advances.refl m₁).beside id, resolving₁⟩
    refine (ends_link rule registered₁ resolving₁ pre (consistent₁.parent id)).mono ?_ ?_
    · rintro - m₂ ⟨⟨consistent₂, beside, resolving₂⟩, passes, linked, links⟩
      refine ⟨?_, fun m₃ leaves => ?_⟩
      · rwa [length_classes_of_outline_eq beside.outline]
      have unfinished₂ : ¬ m₂.IsResolved id := fun done => done.not_isResolving resolving₂
      refine ⟨consistent₂.finish unfinished₂ leaves trivial linked links, ?_, ?_, ?_⟩
      · exact ((enters.beside.trans beside).trans leaves.beside).advances unresolved
      · intro k being
        have ne : k ≠ id := by
          rintro rfl
          rw [IsResolving, leaves.self] at being
          cases being
        have before := passes.noneEntered k (being.congr (leaves.others k ne).symm)
        exact before.congr (enters.others k ne).symm
      · exact leaves.isResolved
    · rintro error m₂ ⟨consistent₂, beside, resolving₂⟩
      have unfinished₂ : ¬ m₂.IsResolved id := fun done => done.not_isResolving resolving₂
      refine ⟨?_, fun _ => ⟨consistent₂, (enters.beside.trans beside).advances unresolved⟩,
        fun _ m₃ leaves => ?_⟩
      · rwa [length_classes_of_outline_eq beside.outline]
      · exact ⟨consistent₂.setProgress unfinished₂ leaves (by decide),
          ((enters.beside.trans beside).trans leaves.beside).advances unresolved⟩

/-- Resolving a class from outside keeps a model consistent. -/
theorem ends_resolve (consistent : Consistent anyOrigin m) (registered : id < m.classes.length) :
    Ends (resolve id) m
      (fun _ m' => Consistent anyOrigin m' ∧ m.Advances m' ∧ m.NoneEntered m' ∧ m'.IsResolved id)
      fun _ m' => Consistent anyOrigin m' ∧ m.Advances m' := by
  unfold resolve
  rw [ends_bind, ends_get]
  exact ends_resolveWithin _ [] consistent registered

/-- Resolving several classes keeps a model consistent. -/
theorem ends_resolveAll (consistent : Consistent anyOrigin m) {ids : List ClassId}
    (registered : ∀ id ∈ ids, id < m.classes.length) :
    Ends (resolveAll ids) m (fun _ m' => Consistent anyOrigin m' ∧ m.Advances m')
      fun _ m' => Consistent anyOrigin m' ∧ m.Advances m' := by
  refine (Ends.forM (fun rest m' => rest ⊆ ids ∧ Consistent anyOrigin m' ∧ m.Advances m')
    (fun _ m' => Consistent anyOrigin m' ∧ m.Advances m') ?_
    ⟨List.Subset.refl _, consistent, .refl m⟩).mono (fun _ _ h => h.2) fun _ _ h => h
  rintro id rest m' ⟨subset, consistent', advances⟩
  have registered' : id < m'.classes.length := by
    rw [length_classes_of_outline_eq advances.outline]
    exact registered id (subset List.mem_cons_self)
  refine (ends_resolve consistent' registered').mono ?_ ?_
  · rintro - m'' ⟨consistent'', advances', -, -⟩
    exact ⟨fun k mem => subset (List.mem_cons_of_mem _ mem), consistent'',
      advances.trans advances'⟩
  · rintro - m'' ⟨consistent'', advances'⟩
    exact ⟨consistent'', advances.trans advances'⟩

end Build
end AmbientDecl
