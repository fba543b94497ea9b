/- # The tally of a run

A class is entered once.  While it is linked it reports what it names in vain, in one piece: first
the class that it extends, if that is not found, and then, for each name in its list of used
classes, that no class has the name or that the class is dropped (`reportsOf`).  The classes that
have to be resolved for it are entered before that, through `extends`, or after it, through `uses`.

So when a call has ended well, the reports of links that have been added are those of the classes
that were entered, one after another, and all other classes are as they were (`Tallies`).  Whether
a mixin was dropped is seen at the class afterwards: it is not linked to the mixin.
-/

import AmbientDecl.Proofs.Model.Mute
import AmbientDecl.Proofs.Model.Contract

namespace AmbientDecl
namespace Model

variable {m m' m'' s s' : Model} {own id k : ClassId} {new new' : List ClassId}
  {told told' : List Diagnostic}

/-- The report that the class is not found that another one extends. -/
def unresolvedExtends (m : Model) (id : ClassId) (name : String) : Diagnostic :=
  ⟨Diagnostic.unresolvedExtends, "Can't find extended class; child=" ++ m.fullName id ++
    " parent=" ++ name, m.fullName id⟩

/-- The report that a class is not found that another one uses. -/
def unresolvedMixin (m : Model) (id : ClassId) (name : String) : Diagnostic :=
  ⟨Diagnostic.unresolvedMixin, "Can't find used class; klass=" ++ m.fullName id ++
    " mixin=" ++ name, m.fullName id⟩

/-- What a class reports of the class that it extends. -/
def parentReport? (m : Model) (id : ClassId) : Option Diagnostic :=
  match (m.classAt id).record.parentName? with
  | none => none
  | some name => if (m.found? name).isNone then some (m.unresolvedExtends id name) else none

/-- What a class reports of a name in its list of used classes, when some classes are dropped. -/
def mixinReport? (m : Model) (dropped : ClassId → Bool) (id : ClassId) (name : String) :
    Option Diagnostic :=
  match m.found? name with
  | none => some (m.unresolvedMixin id name)
  | some k => if dropped k then some (m.cyclicMixin id k) else none

/-- What a class reports of all that its record names. -/
def reportsOf (m : Model) (id : ClassId) : List Diagnostic :=
  (m.parentReport? id).toList ++
    (m.usedNames id).filterMap (m.mixinReport? (fun k => !decide (m.Implements id k)) id)

theorem parentReport?_of_outline_eq (h : m'.outline = m.outline) (id : ClassId) :
    m'.parentReport? id = m.parentReport? id := by
  simp only [parentReport?, unresolvedExtends, record_of_outline_eq h, found?_of_outline_eq h,
    fullName_of_outline_eq h]

theorem mixinReport?_of_outline_eq (h : m'.outline = m.outline) :
    m'.mixinReport? = m.mixinReport? := by
  funext dropped id name
  simp only [mixinReport?, unresolvedMixin, cyclicMixin, found?_of_outline_eq h,
    fullName_of_outline_eq h]

theorem reportsOf_congr (outline : m'.outline = m.outline)
    (implemented : (m'.classAt id).implemented = (m.classAt id).implemented) :
    m'.reportsOf id = m.reportsOf id := by
  have same : ∀ k, decide (m'.Implements id k) = decide (m.Implements id k) := fun k =>
    decide_eq_decide.2 (by rw [Implements, implemented, Implements])
  simp only [reportsOf, parentReport?_of_outline_eq outline, mixinReport?_of_outline_eq outline,
    usedNames_of_outline_eq outline, same]

/-- A step in the linking of one class that draws no link and reports none that is missing. -/
structure Silent (own : ClassId) (m m' : Model) : Prop where
  outline : m'.outline = m.outline
  others : ∀ k, k ≠ own → m'.classAt k = m.classAt k
  progress : (m'.classAt own).progress = (m.classAt own).progress
  implemented : (m'.classAt own).implemented = (m.classAt own).implemented
  mute : m.Mute m'

instance (own : ClassId) : IsPreorder Model (Silent own) where
  refl m := ⟨rfl, fun _ _ => rfl, rfl, rfl, refl_of Mute m⟩
  trans _ _ _ h h' := ⟨h'.outline.trans h.outline,
    fun k ne => (h'.others k ne).trans (h.others k ne), h'.progress.trans h.progress,
    h'.implemented.trans h.implemented, trans_of Mute h.mute h'.mute⟩

theorem Reports.silent (h : m.Reports m') (mute : m.Mute m') (own : ClassId) : Silent own m m' :=
  ⟨h.outline, fun k _ => h.classAt k, by rw [h.classAt], by rw [h.classAt], mute⟩

/-- No class has links whose linking has not begun. -/
def Fresh (m : Model) : Prop := ∀ k, m.IsUnresolved k → ∀ other, ¬ m.Implements k other

/-- What has become of a model while the class `own` is linked: the classes `new` were entered and
are resolved, and `told` was reported. -/
structure Beside (own : ClassId) (new : List ClassId) (told : List Diagnostic) (m m' : Model) :
    Prop where
  outline : m'.outline = m.outline
  nodup : new.Nodup
  entered : ∀ k ∈ new, m.IsUnresolved k ∧ m'.IsResolved k
  kept : ∀ k, k ∉ new → k ≠ own → m'.classAt k = m.classAt k
  resolving : m'.IsResolving own
  told : m'.linkReports = m.linkReports ++ told

/-- What has become of a model by a call that ended well: the classes `new` were entered, one after
another, each of them has reported what it names in vain, and the others are as they were. -/
structure Tallies (new : List ClassId) (m m' : Model) : Prop where
  outline : m'.outline = m.outline
  nodup : new.Nodup
  entered : ∀ k ∈ new, m.IsUnresolved k ∧ m'.IsResolved k
  kept : ∀ k, k ∉ new → m'.classAt k = m.classAt k
  told : m'.linkReports = m.linkReports ++ new.flatMap m'.reportsOf

theorem Silent.beside (h : Silent own m m') (resolving : m.IsResolving own) :
    Beside own [] [] m m' :=
  ⟨h.outline, List.nodup_nil, fun _ mem => absurd mem List.not_mem_nil, fun k _ => h.others k,
    h.progress.trans resolving, h.mute.trans (List.append_nil _).symm⟩

/-- Two lists of classes have no class in common if those of the first are resolved when those of
the second are entered. -/
theorem nodup_append_of_resolved (nodup : new.Nodup) (nodup' : new'.Nodup)
    (resolved : ∀ k ∈ new, m.IsResolved k) (unresolved : ∀ k ∈ new', m.IsUnresolved k) :
    (new ++ new').Nodup := by
  refine List.nodup_append.2 ⟨nodup, nodup', ?_⟩
  rintro k mem _ mem' rfl
  exact (resolved k mem).not_isUnresolved (unresolved k mem')

/-- While a class is linked, the classes that are resolved stay as they are. -/
theorem Beside.classAt_eq (h : Beside own new told m m') (resolving : m.IsResolving own)
    (resolved : m.IsResolved k) : m'.classAt k = m.classAt k := by
  refine h.kept k (fun mem => ?_) fun same => ?_
  · exact resolved.not_isUnresolved (h.entered k mem).1
  · exact resolved.not_isResolving (same ▸ resolving)

/-- So they have reported what they report. -/
theorem Beside.flatMap_reportsOf (h : Beside own new told m m') (resolving : m.IsResolving own)
    {done : List ClassId} (resolved : ∀ k ∈ done, m.IsResolved k) :
    done.flatMap m'.reportsOf = done.flatMap m.reportsOf :=
  List.flatMap_congr fun k mem => reportsOf_congr h.outline
    (by rw [h.classAt_eq resolving (resolved k mem)])

theorem Beside.trans (h : Beside own new told m m') (h' : Beside own new' told' m' m'') :
    Beside own (new ++ new') (told ++ told') m m'' where
  outline := h'.outline.trans h.outline
  nodup := nodup_append_of_resolved h.nodup h'.nodup (fun k mem => (h.entered k mem).2)
    fun k mem => (h'.entered k mem).1
  entered k mem := by
    rcases List.mem_append.1 mem with mem | mem
    · have resolved := (h.entered k mem).2
      exact ⟨(h.entered k mem).1, resolved.congr (h'.classAt_eq h.resolving resolved)⟩
    · obtain ⟨unresolved, resolved⟩ := h'.entered k mem
      have old : k ∉ new := fun mem => (h.entered k mem).2.not_isUnresolved unresolved
      have ne : k ≠ own := fun same => h.resolving.not_isUnresolved (same ▸ unresolved)
      rw [IsUnresolved, h.kept k old ne] at unresolved
      exact ⟨unresolved, resolved⟩
  kept k off ne := by
    rw [List.mem_append, not_or] at off
    rw [h'.kept k off.2 ne, h.kept k off.1 ne]
  resolving := h'.resolving
  told := by rw [h'.told, h.told, List.append_assoc]

theorem Beside.fresh (h : Beside own new told m m') (fresh : m.Fresh) : m'.Fresh := by
  intro k unresolved other
  have off : k ∉ new := fun mem => (h.entered k mem).2.not_isUnresolved unresolved
  have ne : k ≠ own := fun same => h.resolving.not_isUnresolved (same ▸ unresolved)
  rw [IsUnresolved, h.kept k off ne] at unresolved
  rw [Implements, h.kept k off ne]
  exact fresh k unresolved other

theorem Tallies.refl (m : Model) : Tallies [] m m :=
  ⟨rfl, List.nodup_nil, fun _ mem => absurd mem List.not_mem_nil, fun _ _ => rfl,
    (List.append_nil _).symm⟩

theorem Tallies.isResolved (h : Tallies new m m') (resolved : m.IsResolved k) :
    m'.classAt k = m.classAt k :=
  h.kept k fun mem => resolved.not_isUnresolved (h.entered k mem).1

theorem Tallies.trans (h : Tallies new m m') (h' : Tallies new' m' m'') :
    Tallies (new ++ new') m m'' where
  outline := h'.outline.trans h.outline
  nodup := nodup_append_of_resolved h.nodup h'.nodup (fun k mem => (h.entered k mem).2)
    fun k mem => (h'.entered k mem).1
  entered k mem := by
    rcases List.mem_append.1 mem with mem | mem
    · have resolved := (h.entered k mem).2
      exact ⟨(h.entered k mem).1, resolved.congr (h'.isResolved resolved)⟩
    · obtain ⟨unresolved, resolved⟩ := h'.entered k mem
      have old : k ∉ new := fun mem => (h.entered k mem).2.not_isUnresolved unresolved
      rw [IsUnresolved, h.kept k old] at unresolved
      exact ⟨unresolved, resolved⟩
  kept k off := by
    rw [List.mem_append, not_or] at off
    rw [h'.kept k off.2, h.kept k off.1]
  told := by
    have same : new.flatMap m''.reportsOf = new.flatMap m'.reportsOf :=
      List.flatMap_congr fun k mem => reportsOf_congr h'.outline
        (by rw [h'.isResolved (h.entered k mem).2])
    rw [h'.told, h.told, List.flatMap_append, same, List.append_assoc]

theorem Tallies.fresh (h : Tallies new m m') (fresh : m.Fresh) : m'.Fresh := by
  intro k unresolved other
  have off : k ∉ new := fun mem => (h.entered k mem).2.not_isUnresolved unresolved
  rw [IsUnresolved, h.kept k off] at unresolved
  rw [Implements, h.kept k off]
  exact fresh k unresolved other

/-- A call for another class leaves the class alone that is being linked. -/
theorem Tallies.beside (h : Tallies new m m') (resolving : m.IsResolving own) :
    Beside own new (new.flatMap m'.reportsOf) m m' ∧ m'.classAt own = m.classAt own := by
  have off : own ∉ new := fun mem => resolving.not_isUnresolved (h.entered own mem).1
  have same := h.kept own off
  exact ⟨⟨h.outline, h.nodup, h.entered, fun k off _ => h.kept k off, resolving.congr same,
    h.told⟩, same⟩

theorem SetsProgress.fresh (enters : SetsProgress own .resolving m m') (fresh : m.Fresh) :
    m'.Fresh := by
  have resolving := enters.isResolving
  intro k unresolved other
  have ne : k ≠ own := fun same => resolving.not_isUnresolved (same ▸ unresolved)
  rw [IsUnresolved, enters.others k ne] at unresolved
  rw [Implements, enters.others k ne]
  exact fresh k unresolved other

/-- A class that was linked is one of those that were entered: it has reported in between. -/
theorem Beside.tallies {before after : List ClassId} (unresolved : m.IsUnresolved own)
    (enters : SetsProgress own .resolving m s) (untold : s.linkReports = m.linkReports)
    (beside : Beside own (before ++ after) (before.flatMap s'.reportsOf ++ s'.reportsOf own ++
      after.flatMap s'.reportsOf) s s')
    (leaves : SetsProgress own .resolved s' m') (untold' : m'.linkReports = s'.linkReports) :
    Tallies (before ++ [own] ++ after) m m' := by
  have resolved := leaves.isResolved
  have same : m'.reportsOf = s'.reportsOf := funext fun k => by
    refine reportsOf_congr leaves.outline ?_
    by_cases ne : k = own
    · rw [ne, leaves.self]
    · rw [leaves.others k ne]
  have resolving := enters.isResolving
  have off : ∀ k ∈ before ++ after, k ≠ own := fun k mem eq =>
    resolving.not_isUnresolved (eq ▸ (beside.entered k mem).1)
  have order : (before ++ [own] ++ after).Perm (own :: (before ++ after)) := by
    rw [List.append_assoc]
    exact List.perm_middle
  refine ⟨leaves.outline.trans (beside.outline.trans enters.outline),
    order.nodup_iff.2 (List.nodup_cons.2 ⟨fun mem => off own mem rfl, beside.nodup⟩),
    fun k mem => ?_, fun k out => ?_, ?_⟩
  · rcases List.mem_cons.1 (order.mem_iff.1 mem) with rfl | mem
    · exact ⟨unresolved, resolved⟩
    · obtain ⟨new, done⟩ := beside.entered k mem
      rw [IsUnresolved, enters.others k (off k mem)] at new
      exact ⟨new, done.congr (leaves.others k (off k mem))⟩
  · rw [order.mem_iff, List.mem_cons, not_or] at out
    rw [leaves.others k out.1, beside.kept k out.2 out.1, enters.others k out.1]
  · rw [untold', beside.told, untold, same]
    simp only [List.flatMap_append, List.flatMap_singleton]

end Model

namespace Build

open Model

variable {m : Model} {id : ClassId} {enter : ClassId → Build Unit}

theorem silent_modifyClass (id : ClassId) {change : Class → Class}
    (keeps : ∀ c, (change c).outline = c.outline)
    (progress : ∀ c, (change c).progress = c.progress)
    (implemented : ∀ c, (change c).implemented = c.implemented) :
    Keeps (Silent id) (modifyClass id change) := by
  intro m
  rw [ends_modifyClass]
  rcases Nat.lt_or_ge id m.classes.length with registered | beyond
  · have self := classAt_modifyClass_self registered change
    exact ⟨outline_modifyClass m id keeps, fun k => classAt_modifyClass_of_ne registered change,
      by rw [self, progress], by rw [self, implemented], rfl⟩
  · rw [modifyClass_of_le beyond]
    exact refl_of (Silent id) m

theorem silent_note {entry : LogEntry} (h : Diagnostic.ofLinks entry.diagnostic?.toList = [])
    (id : ClassId) : Keeps (Silent id) (note entry) :=
  fun m => (Reports.of_log m [entry]).silent (mute_note h m) id

theorem silent_warn {code message subject : String} (other : code ∉ Diagnostic.linkCodes)
    (id : ClassId) : Keeps (Silent id) (warn code message subject) :=
  fun m => (Reports.of_log m [.warning ⟨code, message, subject⟩]).silent (mute_warn other m) id

theorem silent_putMember (id : ClassId) (key : String) (member : Member) :
    Keeps (Silent id) (putMember id key member) :=
  silent_modifyClass id (fun _ => rfl) (fun _ => rfl) fun _ => rfl

theorem silent_copyMember (member : Member) (id : ClassId) :
    Keeps (Silent id) (copyMember member id) :=
  (reads_copyMember member id).types.mono fun _ _ h => h.toReports.silent h.mute id

theorem silent_adopt (id parent : ClassId) : Keeps (Silent id) (adopt id parent) := by
  unfold adopt
  refine .bind (silent_modifyClass id (fun _ => rfl) (fun _ => rfl) fun _ => rfl) fun _ =>
    .getting fun m => ?_
  split
  · exact .pure _
  · split
    · exact .pure _
    · exact (silent_copyMember _ _).bind fun _ => silent_putMember _ _ _

theorem silent_mergeMember (id : ClassId) (key : String) (member : Member) :
    Keeps (Silent id) (mergeMember id key member) := by
  unfold mergeMember
  split
  · exact .pure _
  · refine .getting fun m => ?_
    dsimp only
    split
    · exact (silent_copyMember _ _).bind fun _ => silent_putMember _ _ _
    · split
      · exact (silent_putMember _ _ _).bind fun _ => silent_warn (by decide) id
      · exact .pure _

theorem silent_absorb (id mixin : ClassId) : Keeps (Silent id) (absorb id mixin) :=
  .getting fun _ => (Keeps.forM (fun _ => silent_mergeMember _ _ _) _).bind fun _ =>
    silent_note rfl id

/-- What is known of the way to other classes while a class is linked. -/
def EntersTallied (enter : ClassId → Build Unit) : Prop :=
  ∀ m k, m.Fresh → k < m.classes.length →
    Ends (enter k) m (fun _ m' => ∃ new, Tallies new m m') fun _ _ => True

/-- Linking a class to its parent reports a parent that is not found. -/
theorem ends_linkParent_told (enters : EntersTallied enter) (fresh : m.Fresh)
    (resolving : m.IsResolving id) {name : String}
    (named : (m.classAt id).record.parentName? = some name) :
    Ends (linkParent id name enter) m
      (fun _ m' => (m'.classAt id).implemented = (m.classAt id).implemented ∧ ∃ new,
        Beside id new (new.flatMap m'.reportsOf ++ (m.parentReport? id).toList) m m')
      fun _ _ => True := by
  unfold linkParent
  rw [ends_bind, ends_get, ends_bind, ends_ofReading]
  refine ⟨fun found find => ?_, fun _ _ => trivial⟩
  cases found with
  | none =>
    have report : m.parentReport? id = some (m.unresolvedExtends id name) := by
      simp only [parentReport?, named, found?_of_find? find]
      rfl
    have reports := Reports.of_log m [.warning (m.unresolvedExtends id name)]
    refine ⟨rfl, [], reports.outline, List.nodup_nil, fun _ mem => absurd mem List.not_mem_nil,
      fun k _ _ => reports.classAt k, resolving.congr (reports.classAt id), ?_⟩
    rw [report]
    exact linkReports_log m (.warning (m.unresolvedExtends id name))
  | some parent =>
    have report : m.parentReport? id = none := by
      simp only [parentReport?, named, found?_of_find? find]
      rfl
    dsimp only
    rw [ends_bind]
    refine (enters m parent fresh (lt_of_found? (found?_of_find? find))).mono ?_ fun _ _ h => h
    rintro - m₁ ⟨new, tallies⟩
    obtain ⟨beside, same⟩ := tallies.beside resolving
    refine (silent_adopt id parent m₁).mono (fun _ m₂ silent => ?_) fun _ _ _ => trivial
    have beside' := silent.beside beside.resolving
    refine ⟨by rw [silent.implemented, same], new, ?_⟩
    have all := beside.trans beside'
    rw [List.append_nil, List.append_nil] at all
    rw [report, beside'.flatMap_reportsOf beside.resolving fun k mem => (beside.entered k mem).2]
    rwa [Option.toList_none, List.append_nil]

/-- What linking a class to the mixin of a name reports. -/
theorem ends_linkMixin_told (name : String) :
    Ends (linkMixin id name) m (fun _ m' => m'.linkReports = m.linkReports ++
        (m.mixinReport? (fun k => decide (m.IsResolving k)) id name).toList)
      fun _ _ => True := by
  unfold linkMixin
  rw [ends_bind, ends_get]
  dsimp only
  rw [ends_bind, ends_ofReading]
  refine ⟨fun found find => ?_, fun _ _ => trivial⟩
  rw [mixinReport?, found?_of_find? find]
  cases found with
  | none => exact linkReports_log m (.warning (m.unresolvedMixin id name))
  | some mixin =>
    dsimp only
    split
    · rename_i busy
      have dropped : decide (m.IsResolving mixin) = true := decide_eq_true busy
      rw [dropped, if_pos rfl]
      exact linkReports_log m (.warning (m.cyclicMixin id mixin))
    · rename_i idle
      have kept : decide (m.IsResolving mixin) = false := decide_eq_false idle
      rw [kept, if_neg Bool.false_ne_true, Option.toList_none, List.append_nil]
      split
      · exact rfl
      · exact rfl

/-- Linking a class to all of its mixins reports the names that lead to no class and the classes
that are being resolved. -/
theorem ends_linkMixins_told (registered : id < m.classes.length) (resolving : m.IsResolving id) :
    Ends ((m.usedNames id).forM (linkMixin id)) m
      (fun _ m' => (m'.classAt id).implemented =
          ((m.mixinsOf id).filter fun k => !decide (m.IsResolving k)).foldl TypeRef.addLink
            (m.classAt id).implemented ∧
        Beside id [] ((m.usedNames id).filterMap
          (m.mixinReport? (fun k => decide (m.IsResolving k)) id)) m m') fun _ _ => True := by
  refine (Ends.forM (fun rest m' => ∃ before, before ++ rest = m.usedNames id ∧
      LinksMixins id (before.filterMap m.found?) m m' ∧ m'.linkReports = m.linkReports ++
        before.filterMap (m.mixinReport? (fun k => decide (m.IsResolving k)) id))
    (fun _ _ => True) ?_ ⟨[], rfl, ⟨Changes.refl id m, rfl, by simp⟩,
      (List.append_nil _).symm⟩).mono ?_ fun _ _ h => h
  · rintro name rest m' ⟨before, all, links, told⟩
    have passes := links.1.passes resolving
    have outline := passes.outline
    have registered' : id < m'.classes.length := by rwa [length_classes_of_outline_eq outline]
    have used : name ∈ m'.usedNames id := by simp [usedNames_of_outline_eq outline, ← all]
    refine ((ends_linkMixin registered' used).and (ends_linkMixin_told name)).mono ?_
      fun _ _ _ => trivial
    rintro - m'' ⟨links', told'⟩
    rw [found?_of_outline_eq outline] at links'
    rw [mixinReport?_of_outline_eq outline, told] at told'
    simp only [passes.isResolving_iff] at told'
    refine ⟨before ++ [name], by simp [← all], ?_, ?_⟩
    · rw [List.filterMap_append]
      exact links.trans links' resolving
    · rw [told', List.append_assoc, List.filterMap_append, List.filterMap_cons]
      cases m.mixinReport? (fun k => decide (m.IsResolving k)) id name <;> rfl
  · rintro - m' ⟨before, all, ⟨changes, own, -⟩, told⟩
    rw [List.append_nil] at all
    subst all
    refine ⟨by rw [own]; rfl, changes.outline, List.nodup_nil,
      fun _ mem => absurd mem List.not_mem_nil, fun k _ ne => changes.others k ne,
      changes.progress.trans resolving, told⟩

/-- Bringing in mixins reports what the classes report that are entered for them. -/
theorem ends_mergeMixins_told (enters : EntersTallied enter) (fresh : m.Fresh)
    (resolving : m.IsResolving id) {mixins : List ClassId}
    (registered : ∀ k ∈ mixins, k < m.classes.length) :
    Ends (mixins.forM fun mixin => mergeMixin id mixin enter) m
      (fun _ m' => (m'.classAt id).implemented = (m.classAt id).implemented ∧ ∃ new,
        Beside id new (new.flatMap m'.reportsOf) m m') fun _ _ => True := by
  refine Ends.forM (fun rest m' => rest ⊆ mixins ∧
      (m'.classAt id).implemented = (m.classAt id).implemented ∧ ∃ new,
        Beside id new (new.flatMap m'.reportsOf) m m') (fun _ _ => True) ?_
    ⟨List.Subset.refl _, rfl, [], (refl_of (Silent id) m).beside resolving⟩ |>.mono
    (fun _ _ h => h.2) fun _ _ h => h
  rintro k rest m' ⟨subset, implemented, new, beside⟩
  have registered' : k < m'.classes.length := by
    rw [length_classes_of_outline_eq beside.outline]
    exact registered k (subset List.mem_cons_self)
  unfold mergeMixin
  rw [ends_bind]
  refine (enters m' k (beside.fresh fresh) registered').mono ?_ fun _ _ h => h
  rintro - m₁ ⟨new₁, tallies⟩
  obtain ⟨beside₁, same⟩ := tallies.beside beside.resolving
  refine (silent_absorb id k m₁).mono (fun _ m₂ silent => ?_) fun _ _ _ => trivial
  have beside₂ := silent.beside beside₁.resolving
  have further := beside₁.trans beside₂
  have all := beside.trans further
  refine ⟨fun l mem => subset (List.mem_cons_of_mem _ mem), ?_, new ++ new₁, ?_⟩
  · rw [silent.implemented, same, implemented]
  · simp only [List.append_nil] at all further
    rw [List.flatMap_append,
      further.flatMap_reportsOf beside.resolving fun k mem => (beside.entered k mem).2,
      beside₂.flatMap_reportsOf beside₁.resolving fun k mem => (beside₁.entered k mem).2]
    exact all

/-- When a class had no links before, it is linked to the mixins that are not dropped. -/
theorem filterMap_mixinReport? {start implemented : List TypeRef} (fresh : ∀ k, .linked k ∉ start)
    (linked : implemented = ((m.mixinsOf id).filter fun k => !decide (m.IsResolving k)).foldl
      TypeRef.addLink start) :
    (m.usedNames id).filterMap (m.mixinReport? (fun k => decide (m.IsResolving k)) id) =
      (m.usedNames id).filterMap
        (m.mixinReport? (fun k => !decide (.linked k ∈ implemented)) id) := by
  refine List.filterMap_congr fun name used => ?_
  rw [mixinReport?, mixinReport?]
  cases found : m.found? name with
  | none => rfl
  | some k =>
    have mixin : k ∈ m.mixinsOf id := List.mem_filterMap.2 ⟨name, used, found⟩
    have kept : .linked k ∈ implemented ↔ ¬ m.IsResolving k := by
      rw [linked, TypeRef.linked_mem_foldl_addLink, or_iff_right (fresh k), List.mem_filter,
        and_iff_right mixin, Bool.not_eq_true', decide_eq_false_iff_not]
    have same : decide (m.IsResolving k) = !decide (.linked k ∈ implemented) := by
      rw [← decide_not]
      exact decide_eq_decide.2 (not_iff_comm.1 kept.symm).symm
    dsimp only
    rw [same]

/-- Linking a class to its mixins and merging their members reports what the class uses in vain,
and then what the classes report that are entered. -/
theorem ends_linkRest_told (enters : EntersTallied enter) (fresh : m.Fresh)
    (resolving : m.IsResolving id) (unlinked : ∀ other, ¬ m.Implements id other)
    {names? : Option (List String)} (used : (m.classAt id).record.usedNames? = names?) :
    Ends (do
        (← orFault .unfit names?).forM (linkMixin id)
        (((← get).classAt id).implemented.filterMap TypeRef.target?).forM fun mixin =>
          mergeMixin id mixin enter) m
      (fun _ m' => ∃ after, Beside id after
        ((m.usedNames id).filterMap (m.mixinReport? (fun k => !decide (m'.Implements id k)) id) ++
          after.flatMap m'.reportsOf) m m')
      fun _ _ => True := by
  rw [ends_bind, ends_orFault]
  refine ⟨fun names some => ?_, fun _ => trivial⟩
  have names_eq : names = m.usedNames id := by
    rw [usedNames, used, some]
    rfl
  rw [ends_bind, names_eq]
  refine (ends_linkMixins_told resolving.lt resolving).mono ?_ fun _ _ h => h
  rintro - m₁ ⟨implemented, beside⟩
  rw [ends_bind, ends_get]
  have registered : ∀ k ∈ (m₁.classAt id).implemented.filterMap TypeRef.target?,
      k < m₁.classes.length := by
    intro k mem
    rw [TypeRef.mem_filterMap_target?, implemented, TypeRef.linked_mem_foldl_addLink] at mem
    rw [length_classes_of_outline_eq beside.outline]
    exact Names.lt (.inr (List.mem_filter.1 (mem.resolve_left (unlinked k))).1)
  refine (ends_mergeMixins_told enters (beside.fresh fresh) beside.resolving registered).mono ?_
    fun _ _ h => h
  rintro - m₂ ⟨implemented', after, beside'⟩
  have told := filterMap_mixinReport? unlinked (implemented'.trans implemented)
  exact ⟨after, told ▸ beside.trans beside'⟩

/-- **While a class is linked, it reports what it names in vain in one piece:** after the classes
that are entered through `extends`, and before those that are entered through `uses`. -/
theorem ends_link_told (enters : EntersTallied enter) (fresh : m.Fresh)
    (resolving : m.IsResolving id) (unlinked : ∀ other, ¬ m.Implements id other) :
    Ends (link id enter) m
      (fun _ m' => ∃ before after, Beside id (before ++ after)
        (before.flatMap m'.reportsOf ++ m'.reportsOf id ++ after.flatMap m'.reportsOf) m m')
      fun _ _ => True := by
  unfold link
  rw [ends_bind, ends_get]
  dsimp only
  have flags : Keeps (Silent id) (modifyClass id fun c =>
      { c with isNamespace := m.tree.contains (Forest.path c.fullName) }) :=
    silent_modifyClass id (fun _ => rfl) (fun _ => rfl) fun _ => rfl
  rw [ends_bind]
  refine (flags m).mono (fun _ m₁ silent => ?_) fun _ _ _ => trivial
  have beside₁ := silent.beside resolving
  -- both ways to the parent go on with the mixins
  have rest : ∀ m₂ before, (m₂.classAt id).implemented = (m.classAt id).implemented →
      Beside id before (before.flatMap m₂.reportsOf ++ (m.parentReport? id).toList) m m₂ →
      Ends (do
        (← orFault .unfit (m.classAt id).record.usedNames?).forM (linkMixin id)
        (((← get).classAt id).implemented.filterMap TypeRef.target?).forM fun mixin =>
          mergeMixin id mixin enter) m₂
      (fun _ m' => ∃ before after, Beside id (before ++ after)
        (before.flatMap m'.reportsOf ++ m'.reportsOf id ++ after.flatMap m'.reportsOf) m m')
      fun _ _ => True := by
    intro m₂ before implemented beside₂
    have unlinked₂ : ∀ other, ¬ m₂.Implements id other := fun other => by
      rw [Implements, implemented]
      exact unlinked other
    have used : (m₂.classAt id).record.usedNames? = (m.classAt id).record.usedNames? := by
      rw [record_of_outline_eq beside₂.outline]
    refine (ends_linkRest_told enters (beside₂.fresh fresh) beside₂.resolving unlinked₂ used).mono
      ?_ fun _ _ h => h
    rintro - m₃ ⟨after, beside₃⟩
    have all := beside₂.trans beside₃
    have done : before.flatMap m₃.reportsOf = before.flatMap m₂.reportsOf :=
      beside₃.flatMap_reportsOf beside₂.resolving fun k mem => (beside₂.entered k mem).2
    refine ⟨before, after, ?_⟩
    rw [done, reportsOf, parentReport?_of_outline_eq all.outline,
      mixinReport?_of_outline_eq beside₃.outline, usedNames_of_outline_eq beside₃.outline]
    simpa only [List.append_assoc] using all
  split
  · rename_i name named
    rw [← record_of_outline_eq silent.outline] at named
    rw [ends_bind]
    refine (ends_linkParent_told enters (beside₁.fresh fresh) beside₁.resolving named).mono ?_
      fun _ _ h => h
    rintro - m₂ ⟨implemented, before, beside⟩
    have all := beside₁.trans beside
    rw [parentReport?_of_outline_eq silent.outline] at all
    exact rest m₂ before (implemented.trans silent.implemented) all
  · rename_i unnamed
    refine rest m₁ [] silent.implemented ?_
    rw [parentReport?, unnamed]
    exact beside₁

/-- **A call that ends well has tallied the classes that it entered.** -/
theorem ends_resolveWithin_tallies (room : Nat) (stack : List ClassId) :
    EntersTallied (resolveWithin room stack) := by
  induction room generalizing stack with
  | zero =>
    intro m id _ _
    refine ends_reach (fun _ => ?_) (fun _ => ?_) fun _ => trivial
    · exact ⟨[], .refl m⟩
    · exact ends_throwCycle fun _ => trivial
  | succ room ih =>
    intro m id fresh registered
    refine ends_reach (fun _ => ?_) (fun _ => ?_) fun unresolved => ?_
    · exact ⟨[], .refl m⟩
    · exact ends_throwCycle fun _ => trivial
    unfold resolveNew setProgress
    rw [ends_bind, ends_modifyClass, ends_bind, ends_tryCatch]
    have enters := setsProgress_modifyClass registered .resolving
    have untold : (m.modifyClass id fun c => { c with progress := .resolving }).linkReports =
        m.linkReports := rfl
    generalize m.modifyClass id _ = m₁ at enters untold ⊢
    have resolving := enters.isResolving
    have unlinked : ∀ other, ¬ m₁.Implements id other := fun other => by
      rw [Implements, enters.self]
      exact fresh id unresolved other
    refine (ends_link_told (ih (stack ++ [id])) (enters.fresh fresh) resolving unlinked).mono ?_ ?_
    · rintro - m₂ ⟨before, after, beside⟩
      rw [ends_modifyClass]
      have leaves := setsProgress_modifyClass beside.resolving.lt .resolved
      exact ⟨before ++ [id] ++ after, beside.tallies unresolved enters untold leaves rfl⟩
    · intro error m₂ _
      dsimp only
      split
      · rw [ends_bind, ends_modifyClass]
        exact trivial
      · exact trivial

/-- A call for several classes tallies the classes that it enters. -/
theorem ends_resolveAll_tallies (fresh : m.Fresh) {ids : List ClassId}
    (registered : ∀ id ∈ ids, id < m.classes.length) :
    Ends (resolveAll ids) m (fun _ m' => ∃ new, Tallies new m m') fun _ _ => True := by
  refine (Ends.forM (fun rest m' => rest ⊆ ids ∧ ∃ new, Tallies new m m') (fun _ _ => True) ?_
    ⟨List.Subset.refl _, [], .refl m⟩).mono (fun _ _ h => h.2) fun _ _ h => h
  rintro id rest m' ⟨subset, new, tallies⟩
  have registered' : id < m'.classes.length := by
    rw [length_classes_of_outline_eq tallies.outline]
    exact registered id (subset List.mem_cons_self)
  unfold resolve
  rw [ends_bind, ends_get]
  refine (ends_resolveWithin_tallies _ [] m' id (tallies.fresh fresh) registered').mono ?_
    fun _ _ h => h
  rintro - m'' ⟨new', tallies'⟩
  exact ⟨fun k mem => subset (List.mem_cons_of_mem _ mem), new ++ new', tallies.trans tallies'⟩

end Build
end AmbientDecl
