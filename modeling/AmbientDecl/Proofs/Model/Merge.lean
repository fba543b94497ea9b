/- # Merging members

What the members of a class become when it is linked, as a computation on tables of members: the
factory of the parent is declared again (`withFactory`), and the public members of a mixin are
merged one by one (`mergeEntry`, `merge`).  Copies are made by the outline of the model, so the
computation is the same in all models with one outline.

The steps of linking a class do to its members what the computation says (`ends_mergeMember`,
`ends_mergeMembers`), or stop where a member cannot be copied.
-/

import AmbientDecl.Model.Resolution
import AmbientDecl.Proofs.Action.Except
import AmbientDecl.Proofs.Model.Advance

namespace AmbientDecl

namespace Model

variable {m m' m'' : Model} {id : ClassId} {own : Members}

/-- Members with the factory of a parent, where they have none. -/
def withFactory (m : Model) (id : ClassId) (own parent : Members) : Except BuildError Members :=
  match Entries.get? Member.createKey parent with
  | none => .ok own
  | some create =>
    if (Entries.get? Member.createKey own).isSome then .ok own
    else do return Entries.put Member.createKey (← m.copyFor id create) own

/-- Members with one member of a mixin merged into them. -/
def mergeEntry (m : Model) (id : ClassId) (own : Members) (entry : String × Member) :
    Except BuildError Members :=
  if entry.2.isPrivate then .ok own
  else
    match Entries.get? entry.1 own with
    | none => do return Entries.put entry.1 (← m.copyFor id entry.2) own
    | some existing =>
      .ok (if existing.isPrivate then Entries.put entry.1 { existing with isPrivate := false } own
        else own)

/-- Members with the members of a mixin merged into them. -/
def merge (m : Model) (id : ClassId) (own mixin : Members) : Except BuildError Members :=
  mixin.foldlM (m.mergeEntry id) own

theorem withFactory_of_outline_eq (h : m'.outline = m.outline) :
    m'.withFactory = m.withFactory := by
  funext id own parent
  rw [withFactory, withFactory, copyFor_of_outline_eq h]

theorem mergeEntry_of_outline_eq (h : m'.outline = m.outline) : m'.mergeEntry = m.mergeEntry := by
  funext id own entry
  rw [mergeEntry, mergeEntry, copyFor_of_outline_eq h]

theorem merge_of_outline_eq (h : m'.outline = m.outline) : m'.merge = m.merge := by
  funext id own mixin
  rw [merge, merge, mergeEntry_of_outline_eq h]

/-- The class `own` gets the members `members`, and nothing else changes but the reports. -/
def SetsMembers (own : ClassId) (members : Members) (m m' : Model) : Prop :=
  m.Changes own m' ∧ m'.classAt own = { m.classAt own with members }

theorem Reports.setsMembers (h : m.Reports m') (id : ClassId) :
    SetsMembers id (m.classAt id).members m m' :=
  ⟨h.changes id, h.classAt id⟩

theorem SetsMembers.trans {members members' : Members} (h : SetsMembers id members m m')
    (h' : SetsMembers id members' m' m'') : SetsMembers id members' m m'' := by
  refine ⟨h.1.trans h'.1, ?_⟩
  rw [h'.2, h.2]

theorem SetsMembers.members_eq {members : Members} (h : SetsMembers id members m m') :
    (m'.classAt id).members = members := by
  rw [h.2]

/-- Storing a sound member changes the members of one class. -/
theorem setsMembers_put (registered : id < m.classes.length) (key : String) {member : Member}
    (sound : m.Sound → m.SoundEntry id (key, member)) :
    SetsMembers id (Entries.put key member (m.classAt id).members) m
      (m.modifyClass id fun c => { c with members := Entries.put key member c.members }) := by
  have keeps : ∀ c : Class,
      ({ c with members := Entries.put key member c.members } : Class).outline = c.outline :=
    fun _ => rfl
  have self := classAt_modifyClass_self registered
    fun c => { c with members := Entries.put key member c.members }
  refine ⟨changes_modifyClass registered keeps (fun _ => rfl) (.inl rfl) (fun _ => .inl)
    fun before => ?_, self⟩
  refine before.put (outline_modifyClass m id keeps) (sound before) (by rw [self]) ?_
  exact fun other ne => by rw [classAt_modifyClass_of_ne registered _ ne]

end Model

namespace Build

variable {m : Model} {id k : ClassId}

theorem ends_copyMember (member : Member) (id : ClassId) (m : Model) :
    Ends (copyMember member id) m
      (fun copy m' => m.copyFor id member = .ok copy ∧ m.Reports m')
      fun error m' => m.copyFor id member = .error error ∧ m.Reports m' :=
  (reads_copyMember member id).consults.ends m

/-- Copying a sound member and storing the copy changes the members of one class. -/
theorem ends_copyMember_put (registered : id < m.classes.length) {key : String} {member : Member}
    (source : m.SoundEntry k (key, member)) :
    Ends (copyMember member id >>= putMember id key) m
      (fun _ m' => ∃ copy, m.copyFor id member = .ok copy ∧
        Model.SetsMembers id (Entries.put key copy (m.classAt id).members) m m')
      fun error m' => m.copyFor id member = .error error ∧ m.Reports m' := by
  rw [ends_bind]
  refine (ends_copyMember member id m).mono ?_ fun _ _ h => h
  rintro copy m' ⟨copied, reports⟩
  have registered' : id < m'.classes.length := by rwa [reports.classes]
  have put := Model.setsMembers_put registered' key fun _ =>
    (source.copy copied).of_outline_eq reports.outline
  rw [reports.classAt] at put
  exact ⟨copy, copied, (reports.setsMembers id).trans put⟩

/-- A member of a mixin is brought into a class as the computation says. -/
theorem ends_mergeMember (registered : id < m.classes.length) {key : String} {member : Member}
    (source : m.SoundEntry k (key, member)) :
    Ends (mergeMember id key member) m
      (fun _ m' => ∃ members, m.mergeEntry id (m.classAt id).members (key, member) = .ok members ∧
        Model.SetsMembers id members m m')
      fun error m' => m.copyFor id member = .error error ∧ m.Reports m' := by
  unfold mergeMember
  by_cases hidden : member.isPrivate = true
  · rw [if_pos hidden, ends_pure]
    exact ⟨_, if_pos hidden, (Model.Reports.refl m).setsMembers id⟩
  rw [if_neg hidden, ends_bind, ends_get]
  dsimp only
  cases existing? : Entries.get? key (m.classAt id).members with
  | none =>
    refine (ends_copyMember_put registered source).mono ?_ fun _ _ h => h
    rintro - m' ⟨copy, copied, sets⟩
    refine ⟨_, ?_, sets⟩
    simp only [Model.mergeEntry, hidden, existing?, copied]
    rfl
  | some existing =>
    dsimp only
    by_cases existingHidden : existing.isPrivate = true
    · rw [if_pos existingHidden, ends_bind]
      refine ⟨Entries.put key { existing with isPrivate := false } (m.classAt id).members, ?_, ?_⟩
      · simp [Model.mergeEntry, hidden, existing?, existingHidden]
      · have opened : m.Sound → m.SoundEntry id (key, { existing with isPrivate := false }) :=
          fun sound => by
            have before := sound.entry id _ (Entries.mem_of_get? existing?)
            exact ⟨before.key, before.owner, before.factory, before.buildable⟩
        have put := Model.setsMembers_put registered key opened
        refine put.trans ?_
        rw [← put.members_eq]
        exact (Model.Reports.of_log _ _).setsMembers id
    · rw [if_neg existingHidden, ends_pure]
      refine ⟨(m.classAt id).members, ?_, (Model.Reports.refl m).setsMembers id⟩
      simp [Model.mergeEntry, hidden, existing?, existingHidden]

/-- **The members of a mixin are merged into a class as the computation says.** -/
theorem ends_mergeMembers (registered : id < m.classes.length) {mixin : Members}
    (sources : ∀ entry ∈ mixin, m.SoundEntry k entry) :
    Ends (mixin.forM fun (key, member) => mergeMember id key member) m
      (fun _ m' => ∃ members, m.merge id (m.classAt id).members mixin = .ok members ∧
        Model.SetsMembers id members m m')
      fun error m' => ∃ entry ∈ mixin, m.copyFor id entry.2 = .error error ∧ m.Changes id m' := by
  -- what is merged already and the members that are left give what the whole mixin gives
  refine (Ends.forM
    (fun rest m' => rest ⊆ mixin ∧ ∃ members, Model.SetsMembers id members m m' ∧
      m.merge id (m.classAt id).members mixin = m.merge id members rest)
    (fun error m' => ∃ entry ∈ mixin, m.copyFor id entry.2 = .error error ∧ m.Changes id m') ?_
    ⟨List.Subset.refl _, _, (Model.Reports.refl m).setsMembers id, rfl⟩).mono ?_ fun _ _ h => h
  · rintro ⟨key, member⟩ rest m' ⟨subset, members, sets, left⟩
    have outline := sets.1.outline
    have registered' : id < m'.classes.length := by
      rwa [Model.length_classes_of_outline_eq outline]
    have source := (sources _ (subset List.mem_cons_self)).of_outline_eq outline
    refine (ends_mergeMember registered' source).mono ?_ ?_
    · rintro - m'' ⟨members', merged, sets'⟩
      refine ⟨fun entry mem => subset (List.mem_cons_of_mem _ mem), members', sets.trans sets', ?_⟩
      rw [sets.members_eq, Model.mergeEntry_of_outline_eq outline] at merged
      rw [left, Model.merge, List.foldlM_cons, merged]
      rfl
    · rintro error m'' ⟨refused, reports⟩
      rw [Model.copyFor_of_outline_eq outline] at refused
      exact ⟨(key, member), subset List.mem_cons_self, refused, sets.1.trans (reports.changes id)⟩
  · rintro - m' ⟨-, members, sets, left⟩
    exact ⟨members, left, sets⟩

end Build
end AmbientDecl
