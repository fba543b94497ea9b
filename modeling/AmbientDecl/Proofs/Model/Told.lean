/- # Models whose members are built in silence

A model is **told** when its tables lead to texts and the items of all members that it holds are
rehearsed.  It is told before anything is registered, and every action keeps it told:

* A new member was built for its item, so the item is rehearsed (`keepsTold_attach`).
* A copy has the item of a member that is there already, so linking hears of no type: nothing is
  reported of any (`hushed_resolveAll`).
-/

import AmbientDecl.Proofs.Model.Advance
import AmbientDecl.Proofs.Model.Assembled
import AmbientDecl.Proofs.Model.Mute
import AmbientDecl.Proofs.Model.Passes
import AmbientDecl.Proofs.Model.Rehearsed

namespace AmbientDecl
namespace Model

/-- The tables lead to texts, and the items of all members are rehearsed. -/
structure Told (m : Model) : Prop where
  typed : m.settings.WellTyped
  rehearsed : ∀ id, ∀ entry ∈ (m.classAt id).members, m.Rehearsed entry.2.item

/-- What has been reported of unreadable types. -/
def typeReports (m : Model) : List Diagnostic :=
  Diagnostic.withCode Diagnostic.unparseableType m.diagnostics

/-- What becomes of a model that is told while no type is heard. -/
structure Hushes (m m' : Model) : Prop where
  told : m'.Told
  settings : m'.settings = m.settings
  reported : m'.reported = m.reported
  types : m'.typeReports = m.typeReports

/-- A model that is told stays told, and no type is heard. -/
def Hushed (m m' : Model) : Prop := m.Told → m.Hushes m'

/-- A model that is told stays told. -/
def KeepsTold (m m' : Model) : Prop := m.Told → m'.Told ∧ m.Recalls m'

variable {m m' m'' : Model} {id : ClassId} {change : Class → Class} {member : Member}

theorem Told.hushes_refl (told : m.Told) : m.Hushes m := ⟨told, rfl, rfl, rfl⟩

theorem Hushes.trans (h : m.Hushes m') (h' : m'.Hushes m'') : m.Hushes m'' :=
  ⟨h'.told, h'.settings.trans h.settings, h'.reported.trans h.reported, h'.types.trans h.types⟩

theorem Hushes.recalls (h : m.Hushes m') : m.Recalls m' :=
  ⟨h.settings, fun _ old => h.reported.symm ▸ old⟩

instance : IsPreorder Model Hushed where
  refl _ := Told.hushes_refl
  trans _ _ _ h h' told := (h told).trans (h' (h told).told)

instance : IsPreorder Model KeepsTold where
  refl m told := ⟨told, .refl m⟩
  trans _ _ _ h h' told := by
    obtain ⟨told', recalls⟩ := h told
    obtain ⟨told'', recalls'⟩ := h' told'
    exact ⟨told'', recalls.trans recalls'⟩

theorem Hushed.keepsTold (h : m.Hushed m') : m.KeepsTold m' := fun told =>
  ⟨(h told).told, (h told).recalls⟩

theorem told_empty {settings : Settings} (typed : settings.WellTyped) : (empty settings).Told :=
  ⟨typed, fun _ _ mem => absurd mem List.not_mem_nil⟩

/-- A model stays told when the items of all members that it gets are rehearsed. -/
theorem Told.of_recalls (told : m.Told) (recalls : m.Recalls m')
    (members : ∀ id, ∀ entry ∈ (m'.classAt id).members,
      (∃ old, entry ∈ (m.classAt old).members) ∨ m'.Rehearsed entry.2.item) : m'.Told := by
  refine ⟨recalls.settings ▸ told.typed, fun id entry mem => ?_⟩
  rcases members id entry mem with ⟨old, there⟩ | rehearsed
  · exact (told.rehearsed old entry there).of_recalls recalls
  · exact rehearsed

/-- Models with the same classes have the same members. -/
theorem Told.of_classes (told : m.Told) (recalls : m.Recalls m') (same : m'.classes = m.classes) :
    m'.Told := by
  refine told.of_recalls recalls fun id entry mem => .inl ⟨id, ?_⟩
  rwa [classAt, same] at mem

/-- A class may be changed when the items of the members that it gets are rehearsed. -/
theorem Told.modifyClass (told : m.Told) (members : ∀ entry ∈ (change (m.classAt id)).members,
      entry ∈ (m.classAt id).members ∨ m.Rehearsed entry.2.item) :
    m.Hushes (m.modifyClass id change) := by
  rcases Nat.lt_or_ge id m.classes.length with registered | beyond
  · have recalls : m.Recalls (m.modifyClass id change) := ⟨rfl, List.Subset.refl _⟩
    refine ⟨told.of_recalls recalls fun k entry mem => ?_, rfl, rfl, rfl⟩
    by_cases same : k = id
    · subst same
      rw [classAt_modifyClass_self registered] at mem
      exact (members entry mem).imp (fun old => ⟨k, old⟩) fun now => now.of_recalls recalls
    · rw [classAt_modifyClass_of_ne registered _ same] at mem
      exact .inl ⟨k, mem⟩
  · rw [modifyClass_of_le beyond]
    exact told.hushes_refl

/-- A member may be stored whose item is rehearsed. -/
theorem Told.put (told : m.Told) (member : Member) (rehearsed : m.Rehearsed member.item)
    (id : ClassId) (key : String) :
    m.Hushes (m.modifyClass id fun c => { c with members := Entries.put key member c.members }) :=
  told.modifyClass fun _ mem => (Entries.mem_put mem).symm.imp_right fun same => by
    rw [same]
    exact rehearsed

theorem Told.log (told : m.Told) {entry : LogEntry}
    (other : Diagnostic.withCode Diagnostic.unparseableType entry.diagnostic?.toList = []) :
    m.Hushes { m with log := m.log ++ [entry] } := by
  have recalls : m.Recalls { m with log := m.log ++ [entry] } := ⟨rfl, List.Subset.refl _⟩
  refine ⟨told.of_classes recalls rfl, rfl, rfl, ?_⟩
  have nothing : entry.diagnostic?.toList.filter
      (fun d => d.code == Diagnostic.unparseableType) = [] := other
  rw [typeReports, diagnostics_log, Diagnostic.withCode, List.filter_append, nothing,
    List.append_nil]
  rfl

end Model

namespace Build

open Model

variable {α : Type} {m : Model} {id : ClassId} {member : Member} {enter : ClassId → Build Unit}

/-- What an action does may depend on the model's being told. -/
theorem ends_hushed {action : Build α}
    (h : m.Told → Ends action m (fun _ m' => m.Hushes m') fun _ m' => m.Hushes m') :
    Ends action m (fun _ m' => m.Hushed m') fun _ m' => m.Hushed m' :=
  ends_of (fun _ _ run told => (h told).of_ok run) fun _ _ run told => (h told).of_error run

theorem hushed_of_told {action : Build α}
    (h : ∀ m, m.Told → Ends action m (fun _ m' => m.Hushes m') fun _ m' => m.Hushes m') :
    Keeps Hushed action :=
  fun m => ends_hushed (h m)

theorem Keeps.ends_hushes {action : Build α} (h : Keeps Hushed action) (told : m.Told) :
    Ends action m (fun _ m' => m.Hushes m') fun _ m' => m.Hushes m' :=
  (h m).mono (fun _ _ hushed => hushed told) fun _ _ hushed => hushed told

theorem hushed_note {entry : LogEntry}
    (other : Diagnostic.withCode Diagnostic.unparseableType entry.diagnostic?.toList = []) :
    Keeps Hushed (note entry) := fun _ told => told.log other

theorem hushed_warn {code message subject : String}
    (other : (code == Diagnostic.unparseableType) = false) :
    Keeps Hushed (warn code message subject) :=
  hushed_note (by simp [Diagnostic.withCode, LogEntry.diagnostic?, other])

/-- A class may be changed in all but its members. -/
theorem hushed_modifyClass (id : ClassId) {change : Class → Class}
    (same : ∀ c, (change c).members = c.members) : Keeps Hushed (modifyClass id change) :=
  fun m told => told.modifyClass fun _ mem => .inl (same (m.classAt id) ▸ mem)

/-- A copy of a member may be stored. -/
theorem ends_copy_put_hushes (told : m.Told) (rehearsed : m.Rehearsed member.item) (id : ClassId)
    (key : String) :
    Ends (copyMember member id >>= putMember id key) m (fun _ m' => m.Hushes m')
      fun _ m' => m.Hushes m' := by
  obtain ⟨copy, run, same, -⟩ := run_copyMember_silent told.typed rehearsed id
  rw [ends_bind, Ends, run]
  exact told.put copy (same ▸ rehearsed) id key

/-- The factory that is declared again is that of a class. -/
theorem hushed_adopt (id parent : ClassId) : Keeps Hushed (adopt id parent) := by
  refine Keeps.bind (hushed_modifyClass id ?_) fun _ => hushed_of_told fun m told => ?_
  · exact fun _ => rfl
  rw [ends_bind, ends_get]
  split
  · exact told.hushes_refl
  · rename_i create there
    split
    · exact told.hushes_refl
    · exact ends_copy_put_hushes told (told.rehearsed parent _ (Entries.mem_of_get? there)) id _

theorem hushed_linkParent (id : ClassId) (name : String) (enters : ∀ k, Keeps Hushed (enter k)) :
    Keeps Hushed (linkParent id name enter) := by
  refine .getting fun m => (Keeps.of_reading _).bind fun found => ?_
  cases found with
  | none => exact hushed_warn rfl
  | some parent => exact (enters parent).bind fun _ => hushed_adopt id parent

theorem hushed_linkMixin (id : ClassId) (name : String) : Keeps Hushed (linkMixin id name) := by
  refine .getting fun m => ?_
  dsimp only
  refine (Keeps.of_reading _).bind fun found => ?_
  cases found with
  | none => exact hushed_warn rfl
  | some mixin =>
    dsimp only
    split
    · exact hushed_warn rfl
    split
    · exact .pure _
    · exact hushed_modifyClass id fun _ => rfl

/-- A member is merged in silence when its item is rehearsed. -/
theorem ends_mergeMember_hushes (told : m.Told) (rehearsed : m.Rehearsed member.item) (id : ClassId)
    (key : String) :
    Ends (mergeMember id key member) m (fun _ m' => m.Hushes m') fun _ m' => m.Hushes m' := by
  unfold mergeMember
  split
  · exact told.hushes_refl
  rw [ends_bind, ends_get]
  dsimp only
  split
  · exact ends_copy_put_hushes told rehearsed id key
  · rename_i existing there
    split
    · have rehearsed' : m.Rehearsed existing.item := told.rehearsed id _ (Entries.mem_of_get? there)
      have put : m.Hushes (m.modifyClass id fun c =>
          { c with members := Entries.put key { existing with isPrivate := false } c.members }) :=
        told.put { existing with isPrivate := false } rehearsed' id key
      rw [ends_bind]
      exact ((hushed_warn rfl).ends_hushes put.told).mono (fun _ _ => put.trans)
        fun _ _ => put.trans
    · exact told.hushes_refl

/-- The members of a mixin are merged as they were before the first of them was merged. -/
theorem hushed_absorb (id mixin : ClassId) : Keeps Hushed (absorb id mixin) := by
  refine hushed_of_told fun m told => ?_
  unfold absorb
  rw [ends_bind, ends_get, ends_bind]
  refine (Ends.forM (fun rest m' => m.Hushes m' ∧ ∀ entry ∈ rest, m.Rehearsed entry.2.item)
    (fun _ m' => m.Hushes m') ?_ ⟨told.hushes_refl, told.rehearsed mixin⟩).mono ?_ fun _ _ h => h
  · rintro ⟨key, member⟩ rest m' ⟨hushes, rehearsed⟩
    have now : m'.Rehearsed member.item :=
      (rehearsed _ List.mem_cons_self).of_recalls hushes.recalls
    refine (ends_mergeMember_hushes hushes.told now id key).mono ?_ fun _ _ => hushes.trans
    exact fun _ m'' h =>
      ⟨hushes.trans h, fun entry mem => rehearsed entry (List.mem_cons_of_mem _ mem)⟩
  · rintro - m' ⟨hushes, -⟩
    exact hushes.trans (hushes.told.log rfl)

theorem hushed_link (id : ClassId) {enter : ClassId → Build Unit}
    (enters : ∀ k, Keeps Hushed (enter k)) :
    Keeps Hushed (link id enter) := by
  refine .getting fun m => ?_
  dsimp only
  refine Keeps.bind (hushed_modifyClass id ?_) fun _ => ?_
  · exact fun _ => rfl
  have rest : Keeps Hushed (do
      (← orFault .unfit (m.classAt id).record.usedNames?).forM (linkMixin id)
      (((← get).classAt id).implemented.filterMap TypeRef.target?).forM fun mixin =>
        mergeMixin id mixin enter) := by
    refine (Keeps.orFault _ _).bind fun names => ?_
    refine (Keeps.forM (hushed_linkMixin id) names).bind fun _ => .getting fun m' => ?_
    exact .forM (fun mixin => (enters mixin).bind fun _ => hushed_absorb id mixin) _
  split
  · exact (hushed_linkParent id _ enters).bind fun _ => rest
  · exact rest

/-- **Resolving a class hears of no type.** -/
theorem hushed_resolve (id : ClassId) : Keeps Hushed (resolve id) :=
  .resolve (fun id _ => hushed_modifyClass id fun _ => rfl) hushed_link id

theorem hushed_resolveAll (ids : List ClassId) : Keeps Hushed (resolveAll ids) :=
  .forM hushed_resolve ids

/-- Registering a class hears of no type: a new class has no members. -/
theorem hushed_register (key : String) (record? : Option ClassRecord) :
    Keeps Hushed (register key record?) := by
  have insert : ∀ home,
      Keeps Hushed (modify fun m : Model => { m with tree := m.tree.insert home }) :=
    fun home m told => ⟨told.of_classes ⟨rfl, List.Subset.refl _⟩ rfl, rfl, rfl, rfl⟩
  have add : ∀ settings slot fullName record override,
      Keeps Hushed (addClass (newClass settings slot fullName record override)) := by
    refine fun settings slot fullName record override m told => ⟨?_, rfl, rfl, rfl⟩
    refine told.of_recalls ⟨rfl, List.Subset.refl _⟩ fun id entry mem => .inl ⟨id, ?_⟩
    rcases classAt_addClass m (newClass settings slot fullName record override) id with same | new
    · rwa [same] at mem
    · rw [new] at mem
      exact absurd mem List.not_mem_nil
  refine .getting fun m => (Keeps.of_reading _).bind fun slot => ?_
  refine (insert _).bind fun _ => .getting fun m' => ?_
  split
  · exact (hushed_warn rfl).bind fun _ => .pure _
  · refine (Keeps.orFault _ _).bind fun record => (Keeps.of_reading _).bind fun override => ?_
    refine (add _ _ _ _ _).bind fun id => (Keeps.of_reading _).bind fun owner => ?_
    exact (hushed_note rfl).bind fun _ => .pure _

theorem hushed_warnOfDeprecation (id : ClassId) (member : Member) :
    Keeps Hushed (warnOfDeprecation id member) := by
  refine .getting fun m => ?_
  dsimp only
  split
  · exact hushed_warn rfl
  · exact .pure _

theorem ends_addMember_hushes (told : m.Told) (rehearsed : m.Rehearsed member.item) (id : ClassId) :
    Ends (addMember id member) m (fun _ m' => m.Hushes m') fun _ m' => m.Hushes m' := by
  unfold addMember
  rw [ends_bind, ends_get]
  dsimp only
  split
  · exact ((hushed_warn rfl).bind fun _ => .pure _).ends_hushes told
  · exact told.put member rehearsed id member.key

/-- A member is added after it was built. -/
theorem keepsTold_attachMember (id : ClassId) (item : Item) :
    Keeps KeepsTold (attachMember id item) := by
  intro m
  refine Keeps.ends_bind_of (((ends_buildMember_rehearsed m item id).and
    (((reads_buildMember item id).consults.reports m).and
      ((reads_buildMember item id).recalls m))).mono ?_ ?_)
  · rintro made m' ⟨⟨same, rehearsed⟩, reports, recalls⟩
    refine ⟨fun told => ⟨told.of_classes recalls reports.classes, recalls⟩, ?_⟩
    have added : Ends (addMember id made) m' (fun _ m'' => m'.Hushed m'')
        fun _ m'' => m'.Hushed m'' :=
      ends_hushed fun told => ends_addMember_hushes told (same ▸ rehearsed) id
    refine Keeps.ends_bind_of (added.mono (fun fits m'' first => ⟨first.keepsTold, ?_⟩)
      fun _ _ first => first.keepsTold)
    have told : Keeps Hushed (if fits = true then do
        warnOfDeprecation id made
        return some made
      else return none) := by
      split
      · exact (hushed_warnOfDeprecation id made).bind fun _ => .pure _
      · exact .pure _
    exact (told m'').mono (fun _ _ => Hushed.keepsTold) fun _ _ => Hushed.keepsTold
  · rintro error m' ⟨-, reports, recalls⟩ told
    exact ⟨told.of_classes recalls reports.classes, recalls⟩

/-- **Attaching an item keeps a model told.** -/
theorem keepsTold_attach (entry : ItemEntry) : Keeps KeepsTold (attach entry) :=
  .attach keepsTold_attachMember (fun _ => (hushed_note rfl).mono fun _ _ => Hushed.keepsTold)
    (fun _ _ => (hushed_warn rfl).mono fun _ _ => Hushed.keepsTold) entry

/-- **Assembling a document keeps a model told.** -/
theorem keepsTold_assemble (document : Document) : Keeps KeepsTold (assemble document) :=
  .assemble (fun key record? => (hushed_register key record?).mono fun _ _ => Hushed.keepsTold)
    keepsTold_attach (fun _ => (hushed_note rfl).mono fun _ _ => Hushed.keepsTold) document

/-- **Lowering a type keeps a model told,** however names are written. -/
theorem keepsTold_lowerWith (naming : TypeExpr.Naming) (text subject : String) :
    Keeps KeepsTold (lowerWith naming text subject) := by
  intro m
  have keeps : m.KeepsTold (m.hear text subject) := fun told =>
    ⟨told.of_classes (recalls_hear ..) (classes_hear ..), recalls_hear ..⟩
  rw [Ends, run_lowerWith_eq, ← Ends, ends_ofReading]
  exact ⟨fun _ _ => keeps, fun _ _ => keeps⟩

end Build
end AmbientDecl
