/- # Linking a class to its mixins

A class is linked to the classes that it uses, but for those that are being resolved: these are
dropped and reported (`ends_linkMixins`).  Then the mixins are brought in one after another, each
once it is resolved (`ends_mergeMixins`).
-/

import AmbientDecl.Proofs.Model.LinkParent

namespace AmbientDecl
namespace Build

open Model

variable {id : ClassId} {start : Class} {enter : ClassId → Build Unit} {Pre : Model → Prop}
  {Fail : BuildError → Model → Prop} {m : Model}

/-- What linking a class to the mixins `found` makes of it; a mixin that is being resolved is
dropped and reported. -/
def LinksMixins (id : ClassId) (found : List ClassId) (m m' : Model) : Prop :=
  m.Changes id m' ∧
    m'.classAt id = { m.classAt id with
      implemented := (found.filter fun mixin => !decide (m.IsResolving mixin)).foldl
        TypeRef.addLink (m.classAt id).implemented } ∧
    ∀ mixin ∈ found, m.IsResolving mixin → m.cyclicMixin id mixin ∈ m'.diagnostics

theorem LinksMixins.trans {found found' : List ClassId} {m' m'' : Model}
    (h : LinksMixins id found m m') (h' : LinksMixins id found' m' m'')
    (resolving : m.IsResolving id) : LinksMixins id (found ++ found') m m'' := by
  obtain ⟨changes, own, reported⟩ := h
  obtain ⟨changes', own', reported'⟩ := h'
  have busy : ∀ mixin, m'.IsResolving mixin ↔ m.IsResolving mixin := fun _ =>
    (changes.passes resolving).isResolving_iff
  refine ⟨changes.trans changes', ?_, fun mixin mem being => ?_⟩
  · rw [own', own]
    simp only [busy, List.filter_append, List.foldl_append]
  · rcases List.mem_append.1 mem with mem | mem
    · exact (List.IsPrefix.filterMap _ changes'.log).subset (reported mixin mem being)
    · have found := reported' mixin mem ((busy mixin).2 being)
      rwa [cyclicMixin, fullName_of_outline_eq changes.outline,
        fullName_of_outline_eq changes.outline] at found

theorem LinksMixins.of_none {m' : Model} (reports : m.Reports m') : LinksMixins id [] m m' :=
  ⟨reports.changes id, reports.classAt id, by simp⟩

/-- A mixin that is being resolved is dropped. -/
theorem LinksMixins.of_busy {mixin : ClassId} {m' : Model} (busy : m.IsResolving mixin)
    (reports : m.Reports m') (reported : m.cyclicMixin id mixin ∈ m'.diagnostics) :
    LinksMixins id [mixin] m m' := by
  refine ⟨reports.changes id, ?_, fun k mem _ => List.mem_singleton.1 mem ▸ reported⟩
  have dropped : decide (m.IsResolving mixin) = true := decide_eq_true busy
  simp only [List.filter_cons, dropped]
  exact reports.classAt id

/-- Any other mixin is linked. -/
theorem LinksMixins.of_idle {mixin : ClassId} {m' : Model} (idle : ¬ m.IsResolving mixin)
    (changes : m.Changes id m') (own : m'.classAt id = { m.classAt id with
      implemented := TypeRef.addLink (m.classAt id).implemented mixin }) :
    LinksMixins id [mixin] m m' := by
  refine ⟨changes, ?_, fun k mem busy => absurd (List.mem_singleton.1 mem ▸ busy) idle⟩
  have kept : decide (m.IsResolving mixin) = false := decide_eq_false idle
  simp only [List.filter_cons, kept, Bool.not_false, if_true, List.filter_nil, List.foldl_cons,
    List.foldl_nil]
  exact own

/-- Linking a class to one of its mixins. -/
theorem ends_linkMixin (registered : id < m.classes.length) {name : String}
    (used : name ∈ m.usedNames id) :
    Ends (linkMixin id name) m (fun _ m' => LinksMixins id ([name].filterMap m.found?) m m')
      fun error m' => m' = m ∧ m.Stops id error := by
  unfold linkMixin
  rw [ends_bind, ends_get]
  dsimp only
  rw [ends_bind, ends_ofReading]
  refine ⟨fun found find => ?_, fun fault find => ⟨rfl, .lookup find⟩⟩
  have one : [name].filterMap m.found? = found.toList := by
    rw [List.filterMap_cons, found?_of_find? find]
    cases found <;> rfl
  rw [one]
  cases found with
  | none =>
    exact .of_none (Reports.of_log m [.warning ⟨Diagnostic.unresolvedMixin,
      "Can't find used class; klass=" ++ (m.classAt id).fullName ++ " mixin=" ++ name,
      (m.classAt id).fullName⟩])
  | some mixin =>
    dsimp only
    split
    · rename_i busy
      refine .of_busy busy (Reports.of_log m [.warning (m.cyclicMixin id mixin)]) ?_
      rw [diagnostics, LogEntry.diagnostics]
      simp [LogEntry.diagnostic?, cyclicMixin, fullName]
    · rename_i idle
      split
      · rename_i there
        refine .of_idle idle (Changes.refl id m) ?_
        rw [TypeRef.addLink, if_pos there]
      · rename_i new
        refine .of_idle idle ?_ ?_
        · refine changes_modifyClass registered (fun _ => rfl) (fun _ => rfl) (.inl rfl)
            (fun other link => ?_) (sound_modifyClass registered (fun _ => rfl) fun _ => rfl)
          refine (List.mem_append.1 link).imp_right fun new => ?_
          rw [TypeRef.linked.inj (List.mem_singleton.1 new)]
          exact List.mem_filterMap.2 ⟨name, used, found?_of_find? find⟩
        · rw [classAt_modifyClass_self registered, TypeRef.addLink, if_neg new]

/-- Linking a class to all of its mixins. -/
theorem ends_linkMixins (rule : LinkRule id start enter Pre Fail)
    (registered : id < m.classes.length) (resolving : m.IsResolving id) (pre : Pre m) :
    Ends ((m.usedNames id).forM (linkMixin id)) m
      (fun _ m' => Pre m' ∧ LinksMixins id (m.mixinsOf id) m m') Fail := by
  refine (Ends.forM
    (fun rest m' => Pre m' ∧ ∃ before, before ++ rest = m.usedNames id ∧
      LinksMixins id (before.filterMap m.found?) m m') Fail ?_
    ⟨pre, [], rfl, Changes.refl id m, rfl, by simp⟩).mono ?_ fun _ _ h => h
  · rintro name rest m' ⟨pre', before, all, links⟩
    have outline := links.1.outline
    have registered' : id < m'.classes.length := by rwa [length_classes_of_outline_eq outline]
    have used : name ∈ m'.usedNames id := by simp [usedNames_of_outline_eq outline, ← all]
    refine (ends_linkMixin registered' used).mono ?_ ?_
    · rintro - m'' links'
      rw [found?_of_outline_eq outline] at links'
      refine ⟨rule.own _ _ pre' links'.1, before ++ [name], by simp [← all], ?_⟩
      rw [List.filterMap_append]
      exact links.trans links' resolving
    · rintro error m'' ⟨rfl, stops⟩
      exact rule.stops _ _ pre' stops
  · rintro - m' ⟨pre', before, all, links⟩
    rw [List.append_nil] at all
    rw [all] at links
    exact ⟨pre', links⟩

/-- Bringing one mixin into a class, once it is resolved. -/
theorem ends_mergeMixin (rule : LinkRule id start enter Pre Fail)
    (registered : id < m.classes.length) (resolving : m.IsResolving id) (pre : Pre m) {k : ClassId}
    (linked : .linked k ∈ start.implemented ∨ k ∈ m.mixinsOf id ∧ ¬ m.IsResolving k) :
    Ends (mergeMixin id k enter) m
      (fun _ m' => Pre m' ∧ m.Passes id m' ∧ m'.IsResolved k ∧ ∃ members,
        m'.merge id (m.classAt id).members (m'.classAt k).members = .ok members ∧
          m'.classAt id = { m.classAt id with members }) Fail := by
  unfold mergeMixin
  rw [ends_bind]
  refine (rule.mixin m k pre resolving linked).mono ?_ fun _ _ h => h
  rintro - m₁ ⟨pre₁, advances, noneEntered, resolved⟩
  have begun : m₁.classAt id = m.classAt id := advances.begun id resolving.not_isUnresolved
  have passes : m.Passes id m₁ := advances.passes noneEntered resolving
  have registered₁ : id < m₁.classes.length := by
    rwa [length_classes_of_outline_eq advances.outline]
  have sources := (rule.sound m₁ pre₁).entry k
  unfold absorb
  rw [ends_bind, ends_get, ends_bind]
  refine (ends_mergeMembers registered₁ sources).mono ?_ ?_
  · rintro - m₂ ⟨members, merged, sets⟩
    have sets' := sets.trans ((Reports.of_log m₂ [.debug ("Merged mixin " ++ m₁.fullName k ++
      " into " ++ m₁.fullName id)]).setsMembers id)
    rw [sets.members_eq] at sets'
    have passes' := sets'.1.passes passes.resolving
    have same := passes'.classAt_eq passes.resolving resolved
    refine ⟨rule.own _ _ pre₁ sets'.1, passes.trans passes', resolved.congr same, members, ?_, ?_⟩
    · rwa [same, merge_of_outline_eq passes'.outline, ← begun]
    · rw [sets'.2, begun]
  · rintro error m₂ ⟨entry, mem, refused, changes⟩
    refine rule.stops m₂ _ (rule.own _ _ pre₁ changes) ?_
    exact (Stops.copy (sources entry mem).buildable refused).of_outline_eq changes.outline

/-- Bringing several mixins into a class, each once it is resolved. -/
theorem ends_mergeMixins (rule : LinkRule id start enter Pre Fail)
    (registered : id < m.classes.length) (resolving : m.IsResolving id) (pre : Pre m)
    {mixins : List ClassId} (linked : ∀ k ∈ mixins, .linked k ∈ start.implemented ∨
      k ∈ m.mixinsOf id ∧ ¬ m.IsResolving k) :
    Ends (mixins.forM fun mixin => mergeMixin id mixin enter) m
      (fun _ m' => Pre m' ∧ m.Passes id m' ∧ (∀ k ∈ mixins, m'.IsResolved k) ∧ ∃ members,
        m'.mixinMembers id (m.classAt id).members mixins = .ok members ∧
          m'.classAt id = { m.classAt id with members }) Fail := by
  refine (Ends.forM
    (fun rest m' => Pre m' ∧ m.Passes id m' ∧ ∃ before, before ++ rest = mixins ∧
      (∀ k ∈ before, m'.IsResolved k) ∧ ∃ members,
        m'.mixinMembers id (m.classAt id).members before = .ok members ∧
          m'.classAt id = { m.classAt id with members }) Fail ?_
    ⟨pre, (Changes.refl id m).passes resolving, [], rfl, by simp, _, rfl, rfl⟩).mono ?_
    fun _ _ h => h
  · rintro k rest m' ⟨pre', passes, before, all, resolved, members, merged, own⟩
    have registered' : id < m'.classes.length := by
      rwa [length_classes_of_outline_eq passes.outline]
    have linked' : .linked k ∈ start.implemented ∨ k ∈ m'.mixinsOf id ∧ ¬ m'.IsResolving k := by
      rw [mixinsOf_of_outline_eq passes.outline, passes.isResolving_iff]
      exact linked k (by simp [← all])
    refine (ends_mergeMixin rule registered' passes.resolving pre' linked').mono ?_ fun _ _ h => h
    rintro - m'' ⟨pre'', passes', resolved', members', merged', own'⟩
    have same : ∀ l ∈ before, m''.classAt l = m'.classAt l := fun l mem =>
      passes'.classAt_eq passes.resolving (resolved l mem)
    refine ⟨pre'', passes.trans passes', before ++ [k], by simp [← all], ?_, members', ?_, ?_⟩
    · intro l mem
      rcases List.mem_append.1 mem with mem | mem
      · exact (resolved l mem).congr (same l mem)
      · exact List.mem_singleton.1 mem ▸ resolved'
    · rw [← mixinMembers_congr passes'.outline same, mixinMembers] at merged
      rw [own] at merged'
      rw [mixinMembers, List.foldlM_append, merged]
      simp only [List.foldlM_cons, List.foldlM_nil]
      exact (bind_pure _).trans merged'
    · rw [own', own]
  · rintro - m' ⟨pre', passes, before, all, resolved, members, merged, own⟩
    rw [List.append_nil] at all
    subst all
    exact ⟨pre', passes, resolved, members, merged, own⟩

end Build
end AmbientDecl
