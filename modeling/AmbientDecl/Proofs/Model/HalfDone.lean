/- # What a failed call leaves half done

A call that finds a cycle takes the progress of its classes back and nothing else.  A class is
**half done** when it is new again and is not as it was; whether it is flagged as a namespace is
left out of this, since a later call flags it anew (`Class.Reflagged`).

A class is linked to the class that it extends after that is resolved, so on the way up to the
ancestors no class is changed but for its flag.  The mixins of a class are linked before they are
resolved.  Hence a class that a failed call leaves unresolved is as it was, unless it is linked to
a mixin already (`ends_resolveWithin_tidy`), and there is such a class unless the ancestors
themselves have no end (`ends_resolveWithin_rooted`, `ends_resolveWithin_rootless`).
-/

import AmbientDecl.Proofs.Model.Growth
import AmbientDecl.Proofs.Model.Quiet

namespace AmbientDecl

/-- A class is the other one, flagged anew as a namespace or not. -/
def Class.Reflagged (c c' : Class) : Prop := c' = { c with isNamespace := c'.isNamespace }

namespace Class.Reflagged

variable {c c' c'' : Class}

theorem refl (c : Class) : c.Reflagged c := rfl

theorem symm (h : c.Reflagged c') : c'.Reflagged c := by
  rw [Reflagged, h]

theorem trans (h : c.Reflagged c') (h' : c'.Reflagged c'') : c.Reflagged c'' := by
  rw [Reflagged] at h h'
  rw [Reflagged, h', h]

/-- Being flagged anew is no matter of how far the linking of a class has come. -/
theorem withProgress (h : c.Reflagged c') (progress : Progress) :
    { c with progress }.Reflagged { c' with progress } := by
  rw [Reflagged, h]

end Class.Reflagged

namespace Model

open Relation (ReflTransGen TransGen)

variable {m m' m₀ : Model} {id parent k : ClassId}

/-- A class is linked to a mixin. -/
def HasMixin (m : Model) (id : ClassId) : Prop :=
  ∃ mixin, .linked mixin ∈ (m.classAt id).implemented

/-- The way up from a class to what it extends comes to no end. -/
def Rootless (m : Model) (id : ClassId) : Prop :=
  ∃ k, ReflTransGen m.Extends id k ∧ TransGen m.Extends k k

/-- A class is unresolved, and it is not as it was. -/
def HalfDone (m₀ m : Model) (id : ClassId) : Prop :=
  m.IsUnresolved id ∧ ¬ (m₀.classAt id).Reflagged (m.classAt id)

/-- The unresolved classes are as they were. -/
def Untouched (m₀ m : Model) : Prop := ∀ k, m.IsUnresolved k → m.classAt k = m₀.classAt k

/-- The unresolved classes are as they were, but for those that are linked to a mixin. -/
def Tidy (m₀ m : Model) : Prop :=
  ∀ k, m.IsUnresolved k → (m₀.classAt k).Reflagged (m.classAt k) ∨ m.HasMixin k

theorem Untouched.tidy (h : Untouched m₀ m) : Tidy m₀ m := fun k new => by
  rw [h k new]
  exact .inl (.refl _)

theorem Broadens.hasMixin (h : m.Broadens m') (linked : m.HasMixin id) : m'.HasMixin id :=
  linked.imp fun _ mem => (h.implemented id).subset mem

theorem extends_of_outline_eq (h : m'.outline = m.outline) : m'.Extends = m.Extends := by
  funext id parent
  rw [Extends, Extends, parentOf?_of_outline_eq h]

theorem rootless_of_outline_eq (h : m'.outline = m.outline) : m'.Rootless id ↔ m.Rootless id := by
  rw [Rootless, Rootless, extends_of_outline_eq h]

theorem Rootless.of_extends (extended : m.Extends id parent) (h : m.Rootless parent) :
    m.Rootless id :=
  h.imp fun _ way => ⟨way.1.head extended, way.2⟩

/-- A class without a root extends a class without a root. -/
theorem Rootless.exists_parent (h : m.Rootless id) :
    ∃ parent, m.Extends id parent ∧ m.Rootless parent := by
  obtain ⟨k, way, loop⟩ := h
  rcases ReflTransGen.cases_head way with rfl | ⟨parent, extended, rest⟩
  · obtain ⟨parent, extended, back⟩ := TransGen.head'_iff.1 loop
    exact ⟨parent, extended, _, back, loop⟩
  · exact ⟨parent, extended, k, rest, loop⟩

theorem Rootless.lt (h : m.Rootless id) : id < m.classes.length := by
  obtain ⟨parent, extended, -⟩ := h.exists_parent
  exact Names.source_lt (.inl extended)

/-- The unresolved classes stay as they were while the progress of a class is set. -/
theorem Untouched.setProgress {progress : Progress} (h : Untouched m₀ m)
    (sets : SetsProgress id progress m m') (begun : progress ≠ .unresolved) : Untouched m₀ m' := by
  intro k new
  have ne : k ≠ id := by
    rintro rfl
    rw [IsUnresolved, sets.self] at new
    exact begun new
  rw [IsUnresolved, sets.others k ne] at new
  rw [sets.others k ne, h k new]

theorem SetsProgress.hasMixin {progress : Progress} (sets : SetsProgress id progress m m')
    (linked : m.HasMixin k) : m'.HasMixin k := by
  by_cases ne : k = id
  · rw [ne] at linked ⊢
    rwa [HasMixin, sets.self]
  · rwa [HasMixin, sets.others k ne]

theorem SetsProgress.isUnresolved_of (sets : SetsProgress id .unresolved m m')
    (new : m.IsUnresolved k) : m'.IsUnresolved k := by
  by_cases ne : k = id
  · rw [ne, IsUnresolved, sets.self]
  · rwa [IsUnresolved, sets.others k ne]

/-- A class that was new and is taken back is as it was, if linking it has changed nothing. -/
theorem reflagged_of_returns {m₁ m₂ m₃ : Model} (new : m.IsUnresolved id)
    (enters : SetsProgress id .resolving m m₁)
    (same : (m₁.classAt id).Reflagged (m₂.classAt id))
    (leaves : SetsProgress id .unresolved m₂ m₃) :
    (m.classAt id).Reflagged (m₃.classAt id) := by
  have back := same.withProgress .unresolved
  rw [← leaves.self, enters.self] at back
  have start : { m.classAt id with progress := .unresolved } = m.classAt id := by
    rw [← show (m.classAt id).progress = .unresolved from new]
  exact start ▸ back

/-- A class changes no other class on the way up when its linking begins and it is flagged. -/
theorem begins_eq {m₁ m₂ : Model} (enters : SetsProgress id .resolving m m₁)
    (flags : m₁.Changes id m₂) (ne : k ≠ id) : m₂.classAt k = m.classAt k := by
  rw [flags.others k ne, enters.others k ne]

end Model

namespace Build

open Model
open Relation (ReflTransGen TransGen)

variable {m m₀ : Model} {id : ClassId} {enter : ClassId → Build Unit} {P : Model → Prop}

/-- What an error leaves that shows a cycle. -/
def OnCycle (P : Model → Prop) (error : BuildError) (m : Model) : Prop :=
  ∀ chain, error = .cycle chain → P m

theorem OnCycle.of_other {error : BuildError} (other : error.isOfProgress = false) :
    OnCycle P error m := by
  rintro chain rfl
  cases other

theorem OnCycle.mono {Q : Model → Prop} {error : BuildError} (h : OnCycle P error m)
    (weaker : P m → Q m) : OnCycle Q error m :=
  fun chain cycle => weaker (h chain cycle)

/-- An action that is quiet finds no cycle. -/
theorem Quiet.ends_onCycle {α : Type} {action : Build α} (h : Quiet action) :
    Ends action m (fun _ _ => True) (OnCycle P) :=
  (h m).mono (fun _ _ _ => trivial) fun _ _ failed => .of_other failed.2

/-- **Where the linking of a class finds a cycle.**  It is found on the way to the class that it
extends, or the class is linked to a mixin by then. -/
theorem ends_link_onCycle (enters : ∀ k, Keeps Broadens (enter k))
    (registered : id < m.classes.length)
    (up : ∀ m₁ parent, Flags id m m₁ → m₁.Extends id parent →
      Ends (enter parent) m₁ (fun _ _ => True) (OnCycle P)) :
    Ends (link id enter) m (fun _ _ => True) (OnCycle fun m' => P m' ∨ m'.HasMixin id) := by
  -- the mixins of a class are linked when the first one is resolved
  have rest : ∀ m₂, Ends (do
        (← orFault .unfit (m.classAt id).record.usedNames?).forM (linkMixin id)
        (((← get).classAt id).implemented.filterMap TypeRef.target?).forM fun mixin =>
          mergeMixin id mixin enter) m₂
      (fun _ _ => True) (OnCycle fun m' => P m' ∨ m'.HasMixin id) := by
    intro m₂
    rw [ends_bind]
    refine (Quiet.orFault _ _).ends_onCycle.mono (fun names m₃ _ => ?_) fun _ _ h => h
    rw [ends_bind]
    refine (Quiet.forM (quiet_linkMixin id) names).ends_onCycle.mono (fun _ m₄ _ => ?_)
      fun _ _ h => h
    rw [ends_bind, ends_get]
    cases mixins : (m₄.classAt id).implemented.filterMap TypeRef.target? with
    | nil => trivial
    | cons first others =>
      have linked : m₄.HasMixin id :=
        ⟨first, TypeRef.mem_filterMap_target?.1 (mixins ▸ List.mem_cons_self)⟩
      have merge : ∀ mixin, Keeps Broadens (mergeMixin id mixin enter) := fun mixin =>
        (enters mixin).bind fun _ => broadens_absorb id mixin
      exact (Keeps.forM merge (first :: others) m₄).mono (fun _ _ _ => trivial)
        fun _ _ broadens _ _ => .inr (broadens.hasMixin linked)
  unfold link
  rw [ends_bind, ends_get]
  dsimp only
  rw [ends_bind, ends_modifyClass]
  have flags := flags_modifyClass registered
  generalize m.modifyClass id _ = m₁ at flags ⊢
  split
  · rename_i name named
    unfold linkParent
    rw [ends_bind, ends_bind, ends_get, ends_bind, ends_ofReading]
    refine ⟨fun found find => ?_, fun fault _ => .of_other rfl⟩
    cases found with
    | none => exact rest _
    | some parent =>
      have extended : m₁.Extends id parent := by
        rw [Extends, parentOf?, flags.2, named]
        exact found?_of_find? find
      rw [ends_bind]
      refine (up m₁ parent flags extended).mono (fun _ m₂ _ => ?_) fun _ _ h => h.mono .inl
      exact (quiet_adopt id parent).ends_onCycle.mono (fun _ m₃ _ => rest m₃) fun _ _ h => h
  · exact rest m₁

theorem broadens_resolveWithin (room : Nat) (stack : List ClassId) (id : ClassId) :
    Keeps Broadens (resolveWithin room stack id) :=
  .resolveWithin broadens_setProgress broadens_link room stack id

/-- How the resolving of a new class finds a cycle: the class is taken back. -/
theorem ends_resolveNew_onCycle {room : Nat} {stack : List ClassId} {done : Model → Prop}
    (registered : id < m.classes.length)
    (h : ∀ m₁, SetsProgress id .resolving m m₁ → Ends (link id (resolveWithin room stack)) m₁
      (fun _ m₂ => ∀ m₃, SetsProgress id .resolved m₂ m₃ → done m₃)
      (OnCycle fun m₂ => ∀ m₃, SetsProgress id .unresolved m₂ m₃ → P m₃)) :
    Ends (resolveNew id (link id (resolveWithin room stack))) m (fun _ => done) (OnCycle P) := by
  refine ends_resolveNew registered fun m₁ enters => ?_
  have known : ∀ m₂, m₁.Broadens m₂ → id < m₂.classes.length := fun m₂ broadens => by
    rwa [length_classes_of_outline_eq (broadens.outline.trans enters.outline)]
  have broadens := broadens_link id (broadens_resolveWithin room stack) m₁
  refine ((h m₁ enters).and broadens).mono (fun _ m₂ h => ⟨known m₂ h.2, h.1⟩) ?_
  rintro error m₂ ⟨failed, broadens⟩
  refine ⟨known m₂ broadens, ?_, fun _ m₃ leaves chain cycle => failed chain cycle m₃ leaves⟩
  rintro fault chain rfl
  cases fault

/-- What stops the linking of a class is no cycle. -/
theorem isOfProgress_of_stops {error : BuildError} (h : m.Stops id error) :
    error.isOfProgress = false := by
  cases h with
  | lookup _ => rfl
  | uses _ _ => rfl
  | @copy member _ _ refused =>
    rw [copyFor, value] at refused
    split at refused
    · cases refused
    · rename_i run
      exact Except.error.inj refused ▸ ((quiet_copyMember member id m).of_error run).2

/-- Linking a class keeps the other classes that are unresolved as they were, and a cycle leaves
them tidy, if the way to other classes does. -/
theorem untouched_linkRule (id : ClassId)
    (rule : ∀ m k, Consistent anyOrigin m → Untouched m₀ m → k < m.classes.length → Ends (enter k) m
      (fun _ m' => (Consistent anyOrigin m' ∧ m.Advances m' ∧ m.NoneEntered m' ∧
        m'.IsResolved k) ∧ Untouched m₀ m') (OnCycle (Tidy m₀)))
    (consistent : Consistent anyOrigin m) :
    LinkRule id (m.classAt id) enter
      (fun m' => (Consistent anyOrigin m' ∧ m.AdvancesBeside id m' ∧ m'.IsResolving id) ∧
        Untouched m₀ m') (OnCycle (Tidy m₀)) := by
  have step : ∀ m' k, ((Consistent anyOrigin m' ∧ m.AdvancesBeside id m' ∧ m'.IsResolving id) ∧
      Untouched m₀ m') → k < m'.classes.length → Ends (enter k) m'
        (fun _ m'' => ((Consistent anyOrigin m'' ∧ m.AdvancesBeside id m'' ∧ m''.IsResolving id) ∧
          Untouched m₀ m'') ∧ m'.Advances m'' ∧ m'.NoneEntered m'' ∧ m''.IsResolved k)
        (OnCycle (Tidy m₀)) := by
    rintro m' k ⟨⟨consistent', beside, resolving⟩, untouched⟩ registered
    refine (rule m' k consistent' untouched registered).mono ?_ fun _ _ h => h
    rintro - m'' ⟨⟨consistent'', advances, noneEntered, resolved⟩, untouched'⟩
    have resolving' := resolving.congr (advances.begun id resolving.not_isUnresolved)
    exact ⟨⟨⟨consistent'', beside.trans (advances.beside id), resolving'⟩, untouched'⟩, advances,
      noneEntered, resolved⟩
  refine ⟨fun m' h => h.1.1.sound, ?_, fun m' error _ stops => ?_, ?_, ?_⟩
  · rintro m' m'' ⟨⟨consistent', beside, resolving⟩, untouched⟩ changes
    have resolving' : m''.IsResolving id := changes.progress.trans resolving
    refine ⟨⟨consistent'.changes changes fun done => done.not_isResolving resolving,
      beside.trans changes.beside, resolving'⟩, fun k new => ?_⟩
    have ne : k ≠ id := fun same => resolving'.not_isUnresolved (same ▸ new)
    rw [IsUnresolved, changes.others k ne] at new
    rw [changes.others k ne, untouched k new]
  · exact .of_other (isOfProgress_of_stops stops)
  · exact fun m' k h _ extended => step m' k h extended.lt
  · intro m' k h _ linked
    have used : k ∈ m'.mixinsOf id := by
      rcases linked with linked | linked
      · rw [mixinsOf_of_outline_eq h.1.2.1.outline]
        exact consistent.mixins id k linked
      · exact linked.1
    exact step m' k h (Names.lt (.inr used))

/-- What the linking of a class makes of the class itself when it finds a cycle: nothing, but for
its flag, or it is linked to a mixin. -/
theorem ends_link_own (room : Nat) (stack : List ClassId) (consistent : Consistent anyOrigin m)
    (resolving : m.IsResolving id) :
    Ends (link id (resolveWithin room stack)) m (fun _ _ => True)
      (OnCycle fun m' => (m.classAt id).Reflagged (m'.classAt id) ∨ m'.HasMixin id) := by
  refine ends_link_onCycle (P := fun m' => (m.classAt id).Reflagged (m'.classAt id))
    (broadens_resolveWithin room stack) resolving.lt fun m₁ parent flags extended => ?_
  have resolving₁ : m₁.IsResolving id := flags.1.progress.trans resolving
  have consistent₁ := consistent.changes flags.1 fun done => done.not_isResolving resolving
  refine (ends_resolveWithin room stack consistent₁ extended.lt).mono (fun _ _ _ => trivial) ?_
  rintro error m₂ ⟨-, advances⟩ - -
  have kept := advances.begun id resolving₁.not_isUnresolved
  simp only [kept, flags.2, Class.Reflagged]

/-- **A cycle leaves the unresolved classes tidy,** if they were as in `m₀` before. -/
theorem ends_resolveWithin_tidy (room : Nat) (stack : List ClassId)
    (consistent : Consistent anyOrigin m) (untouched : Untouched m₀ m)
    (registered : id < m.classes.length) :
    Ends (resolveWithin room stack id) m (fun _ => Untouched m₀) (OnCycle (Tidy m₀)) := by
  induction room generalizing stack id m with
  | zero =>
    refine ends_reach (fun _ => untouched) (fun _ => ?_) fun _ => ?_
    · exact ends_throwCycle fun _ _ _ => untouched.tidy
    · exact fun _ _ => untouched.tidy
  | succ room ih =>
    refine ends_reach (fun _ => untouched) (fun _ => ?_) fun new => ?_
    · exact ends_throwCycle fun _ _ _ => untouched.tidy
    refine ends_resolveNew_onCycle registered fun m₁ enters => ?_
    have unfinished : ¬ m.IsResolved id := fun done => done.not_isUnresolved new
    have consistent₁ := consistent.setProgress unfinished enters (by decide)
    have resolving₁ := enters.isResolving
    have rule : LinkRule id (m₁.classAt id) (resolveWithin room (stack ++ [id])) _
        (OnCycle (Tidy m₀)) := untouched_linkRule id (fun m' k consistent' untouched' registered' =>
      ((ends_resolveWithin room (stack ++ [id]) consistent' registered').and
        (ih (stack ++ [id]) consistent' untouched' registered')).mono (fun _ _ h => h)
          fun _ _ h => h.2) consistent₁
    have others := ends_link rule resolving₁.lt resolving₁
      ⟨⟨consistent₁, (Advances.refl m₁).beside id, resolving₁⟩,
        untouched.setProgress enters (by decide)⟩ (consistent₁.parent id)
    have own := ends_link_own room (stack ++ [id]) consistent₁ resolving₁
    refine (others.and own).mono ?_ ?_
    · rintro - m₂ ⟨⟨⟨-, untouched₂⟩, -⟩, -⟩ m₃ leaves
      exact untouched₂.setProgress leaves (by decide)
    · rintro error m₂ ⟨tidy, own⟩ chain cycle m₃ leaves k new'
      by_cases ne : k = id
      · subst ne
        rcases own chain cycle with same | linked
        · exact .inl (untouched k new ▸ reflagged_of_returns new enters same leaves)
        · exact .inr (leaves.hasMixin linked)
      · rw [IsUnresolved, leaves.others k ne] at new'
        refine (tidy chain cycle k new').imp (fun same => ?_) fun linked => leaves.hasMixin linked
        rwa [leaves.others k ne]

/-- **If the way up comes to an end, then a cycle leaves a class that is linked to a mixin.**  No
class on this way is being resolved before. -/
theorem ends_resolveWithin_rooted (room : Nat) (stack : List ClassId)
    (registered : id < m.classes.length) (rooted : ¬ m.Rootless id)
    (idle : ∀ k, ReflTransGen m.Extends id k → ¬ m.IsResolving k) :
    Ends (resolveWithin room stack id) m (fun _ _ => True)
      (OnCycle fun m' => ∃ k, m'.IsUnresolved k ∧ m'.HasMixin k) := by
  induction room generalizing stack id m with
  | zero =>
    refine ends_reach (fun _ => trivial) (fun being => absurd being (idle id .refl)) fun _ => ?_
    exact fun chain cycle => nomatch cycle
  | succ room ih =>
    refine ends_reach (fun _ => trivial) (fun being => absurd being (idle id .refl)) fun new => ?_
    refine ends_resolveNew_onCycle registered fun m₁ enters => ?_
    have halts := ends_link_onCycle (P := fun m' => ∃ k, m'.IsUnresolved k ∧ m'.HasMixin k)
      (broadens_resolveWithin room (stack ++ [id])) enters.isResolving.lt
      fun m₂ parent flags extended => by
        have outline := flags.1.outline.trans enters.outline
        rw [extends_of_outline_eq outline] at extended
        refine ih (stack ++ [id]) ?_ ?_ fun k way => ?_
        · rw [length_classes_of_outline_eq outline]
          exact extended.lt
        · rw [rootless_of_outline_eq outline]
          exact fun rootless => rooted (rootless.of_extends extended)
        -- the class itself is not met again on the way up
        · rw [extends_of_outline_eq outline] at way
          have ne : k ≠ id := by
            rintro rfl
            exact rooted ⟨k, .refl, .head' extended way⟩
          rw [IsResolving, begins_eq enters flags.1 ne]
          exact idle k (way.head extended)
    refine halts.mono (fun _ _ _ _ _ => trivial) fun error m₂ h => h.mono fun left m₃ leaves => ?_
    rcases left with ⟨k, new', linked⟩ | linked
    · exact ⟨k, leaves.isUnresolved_of new', leaves.hasMixin linked⟩
    · exact ⟨id, by rw [IsUnresolved, leaves.self], leaves.hasMixin linked⟩

/-- Linking a class fails if the way to the class fails that it extends. -/
theorem ends_link_up {parent : ClassId} (registered : id < m.classes.length)
    (extended : m.Extends id parent)
    (up : ∀ m₁, Flags id m m₁ → Ends (enter parent) m₁ (fun _ _ => False) (OnCycle P)) :
    Ends (link id enter) m (fun _ _ => False) (OnCycle P) := by
  obtain ⟨name, named, found⟩ := Option.bind_eq_some_iff.1 extended
  unfold link
  rw [ends_bind, ends_get]
  dsimp only
  rw [ends_bind, ends_modifyClass]
  have flags := flags_modifyClass registered
  generalize m.modifyClass id _ = m₁ at flags ⊢
  rw [named]
  dsimp only
  unfold linkParent
  rw [ends_bind, ends_bind, ends_get, ends_bind, ends_ofReading]
  refine ⟨fun found? find => ?_, fun fault _ => .of_other rfl⟩
  have same : found? = some parent := by
    rw [find?_of_outline_eq flags.1.outline] at find
    exact (found?_of_find? find).symm.trans found
  subst same
  rw [ends_bind]
  exact (up m₁ flags).mono (fun _ _ none => none.elim) fun _ _ h => h

/-- **If the way up comes to no end, then a call fails and leaves the classes as they were,** but
for their flags.  No class on this way is resolved before. -/
theorem ends_resolveWithin_rootless (room : Nat) (stack : List ClassId) (rootless : m.Rootless id)
    (unfinished : ∀ k, ReflTransGen m.Extends id k → ¬ m.IsResolved k) :
    Ends (resolveWithin room stack id) m (fun _ _ => False)
      (OnCycle fun m' => ∀ k, (m.classAt k).Reflagged (m'.classAt k)) := by
  induction room generalizing stack id m with
  | zero =>
    refine ends_reach (fun done => unfinished id .refl done) (fun _ => ?_) fun _ => ?_
    · exact ends_throwCycle fun _ _ _ k => .refl _
    · exact fun chain cycle => nomatch cycle
  | succ room ih =>
    refine ends_reach (fun done => unfinished id .refl done) (fun _ => ?_) fun new => ?_
    · exact ends_throwCycle fun _ _ _ k => .refl _
    refine ends_resolveNew_onCycle rootless.lt fun m₁ enters => ?_
    obtain ⟨parent, extended, rootless'⟩ := rootless.exists_parent
    have extended₁ : m₁.Extends id parent := by rwa [extends_of_outline_eq enters.outline]
    have fails : Ends (link id (resolveWithin room (stack ++ [id]))) m₁ (fun _ _ => False)
        (OnCycle fun m' => ∀ k, (m₁.classAt k).Reflagged (m'.classAt k)) :=
      ends_link_up enters.isResolving.lt extended₁ fun m₂ flags => by
        have outline := flags.1.outline.trans enters.outline
        have rootless₂ : m₂.Rootless parent := (rootless_of_outline_eq outline).2 rootless'
        refine (ih (stack ++ [id]) rootless₂ fun k way done => ?_).mono
          (fun _ _ none => none) fun error m₃ h => h.mono fun same k => ?_
        · rw [extends_of_outline_eq outline] at way
          by_cases ne : k = id
          · subst ne
            exact done.not_isResolving (flags.1.progress.trans enters.isResolving)
          · exact unfinished k (way.head extended) (done.congr (begins_eq enters flags.1 ne).symm)
        · by_cases ne : k = id
          · subst ne
            have flagged : (m₁.classAt k).Reflagged (m₂.classAt k) := by rw [flags.2]; rfl
            exact flagged.trans (same k)
          · exact flags.1.others k ne ▸ same k
    refine fails.mono (fun _ _ none => none.elim) fun error m₂ h => h.mono ?_
    intro same m₃ leaves k
    by_cases ne : k = id
    · subst ne
      exact reflagged_of_returns new enters (same k) leaves
    · rw [leaves.others k ne, ← enters.others k ne]
      exact same k

/-- A call that fails with a cycle, as long as no class has been linked, leaves half done the
classes that are unresolved and linked to a mixin.  There is one unless the way up comes to no
end. -/
theorem halfDone_of_cycle {chain : List String} (unlinked : m₀.Unlinked)
    (registered : id < m₀.classes.length)
    (failed : (resolve id).run m₀ = .error (.cycle chain) m) :
    (∀ k, HalfDone m₀ m k ↔ m.IsUnresolved k ∧ m.HasMixin k) ∧
      ((∃ k, HalfDone m₀ m k) ↔ ¬ m₀.Rootless id) := by
  have run : (resolveWithin (m₀.classes.length + 1) [] id).run m₀ = .error (.cycle chain) m :=
    failed
  have tidy : Tidy m₀ m := (ends_resolveWithin_tidy _ [] unlinked.consistent (fun _ _ => rfl)
    registered).of_error run chain rfl
  have iff : ∀ k, HalfDone m₀ m k ↔ m.IsUnresolved k ∧ m.HasMixin k := by
    intro k
    refine and_congr_right fun new => ⟨(tidy k new).resolve_left, ?_⟩
    rintro ⟨mixin, linked⟩ same
    rw [same] at linked
    exact unlinked.named k mixin linked
  refine ⟨iff, ?_, fun rooted => ?_⟩
  · rintro ⟨k, -, changed⟩ rootless
    have same := (ends_resolveWithin_rootless _ [] rootless fun k _ done =>
      done.not_isUnresolved (unlinked.unresolved k)).of_error run chain rfl
    exact changed (same k)
  · obtain ⟨k, left⟩ := (ends_resolveWithin_rooted _ [] registered rooted fun k _ being =>
      being.not_isUnresolved (unlinked.unresolved k)).of_error run chain rfl
    exact ⟨k, (iff k).2 left⟩

end Build
end AmbientDecl
