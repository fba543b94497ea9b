/- # Calls after a failed one

Resolving a class looks at the classes to which names lead from it, and at nothing else but the
outline of the model and the reports.  Two models **agree** on a set of classes that is closed under
names when these classes are the same in both, but for their flags (`Model.AgreeOn`).  Every step of
resolving one of them keeps this, so a call ends in the same way in both models
(`parallel_resolve`).

A failed call leaves classes resolved and others half done.  In the model in which the unresolved
classes are put back (`Model.putBack`), a class from which no name leads to one that is half done
is resolved in the same way as in the model that was left (`resolve_after_cycle`).
-/

import AmbientDecl.Proofs.Model.HalfDone
import AmbientDecl.Proofs.Model.Heedless

namespace AmbientDecl
namespace Model

variable {o m m' m₀ : Model} {alike near : ClassId → Prop} {id k : ClassId}

/-- Two models with the outline of `o` and the same reports.  The classes of `alike` are the same
in both, but for their flags, and those of `near` are linked to no others as mixins. -/
structure AgreeOn (o : Model) (alike near : ClassId → Prop) (m m' : Model) : Prop where
  outline : m.outline = o.outline
  outline' : m'.outline = o.outline
  reported : m'.reported = m.reported
  log : m'.log = m.log
  classes : ∀ k, alike k → (m.classAt k).Reflagged (m'.classAt k)
  links : ∀ k, near k → ∀ mixin, .linked mixin ∈ (m.classAt k).implemented → near mixin

/-- The classes of `near` are alike, and they name no others. -/
structure ClosedUnderNames (o : Model) (alike near : ClassId → Prop) : Prop where
  alike : ∀ k, near k → alike k
  names : ∀ k, near k → ∀ other, o.Names k other → near other

namespace AgreeOn

theorem same_outline (h : AgreeOn o alike near m m') : m'.outline = m.outline :=
  h.outline'.trans h.outline.symm

theorem members (h : AgreeOn o alike near m m') (at_ : alike k) :
    (m'.classAt k).members = (m.classAt k).members := by
  rw [h.classes k at_]

theorem implemented (h : AgreeOn o alike near m m') (at_ : alike k) :
    (m'.classAt k).implemented = (m.classAt k).implemented := by
  rw [h.classes k at_]

theorem progress (h : AgreeOn o alike near m m') (at_ : alike k) :
    (m'.classAt k).progress = (m.classAt k).progress := by
  rw [h.classes k at_]

theorem fullName_eq (h : AgreeOn o alike near m m') : m'.fullName = m.fullName :=
  funext (fullName_of_outline_eq h.same_outline)

theorem note (h : AgreeOn o alike near m m') (entry : LogEntry) :
    AgreeOn o alike near { m with log := m.log ++ [entry] }
      { m' with log := m'.log ++ [entry] } where
  outline := h.outline
  outline' := h.outline'
  reported := h.reported
  log := congrArg (· ++ [entry]) h.log
  classes := h.classes
  links := h.links

theorem refuse (h : AgreeOn o alike near m m') (error : TypeExpr.SyntaxError) (subject : String) :
    AgreeOn o alike near (m.refuse error subject) (m'.refuse error subject) := by
  unfold Model.refuse
  rw [h.reported]
  split
  · exact h
  · exact {
      outline := h.outline
      outline' := h.outline'
      reported := rfl
      log := congrArg (· ++ [_]) h.log
      classes := h.classes
      links := h.links }

/-- Changing a class in the same way in both keeps models in agreement. -/
theorem modifyClass (h : AgreeOn o alike near m m') {change : Class → Class}
    (keeps : ∀ c, (change c).outline = c.outline)
    (reflags : ∀ c c' : Class, c.Reflagged c' → (change c).Reflagged (change c'))
    (links : near id → ∀ mixin, .linked mixin ∈ (change (m.classAt id)).implemented → near mixin) :
    AgreeOn o alike near (m.modifyClass id change) (m'.modifyClass id change) := by
  rcases Nat.lt_or_ge id m.classes.length with registered | beyond
  · have registered' : id < m'.classes.length := by
      rwa [length_classes_of_outline_eq h.same_outline]
    refine ⟨(outline_modifyClass m id keeps).trans h.outline,
      (outline_modifyClass m' id keeps).trans h.outline', h.reported, h.log, fun k at_ => ?_,
      fun k at_ => ?_⟩
    · rw [classAt_modifyClass m id k change registered,
        classAt_modifyClass m' id k change registered']
      split
      · exact reflags _ _ (h.classes k at_)
      · exact h.classes k at_
    · rw [classAt_modifyClass m id k change registered]
      split
      · rename_i same
        exact same ▸ links (same ▸ at_)
      · exact h.links k at_
  · have beyond' : m'.classes.length ≤ id := by
      rwa [length_classes_of_outline_eq h.same_outline]
    rwa [modifyClass_of_le beyond, modifyClass_of_le beyond']

end AgreeOn
end Model

namespace Build

open Model

variable {α β : Type} {R : Model → Model → Prop} {o : Model} {alike near : ClassId → Prop}
  {id k : ClassId} {enter : ClassId → Build Unit}

/-- Two runs of the action from related models end in the same way, with related models. -/
def Parallel (R : Model → Model → Prop) (action : Build α) : Prop :=
  ∀ ⦃m m' : Model⦄, R m m' → EndsBy R (action.run m) (action.run m')

namespace Parallel

theorem pure (value : α) : Parallel R (pure value : Build α) := fun _ _ => .ok

theorem throw (error : BuildError) : Parallel R (throw error : Build α) := fun _ _ => .error

theorem getting {next : Model → Build α}
    (h : ∀ m m', R m m' → EndsBy R ((next m).run m) ((next m').run m')) :
    Parallel R (get >>= next) :=
  fun m m' related => h m m' related

theorem bind {action : Build β} {next : β → Build α} (h : Parallel R action)
    (h' : ∀ value, Parallel R (next value)) : Parallel R (action >>= next) :=
  fun _ _ related => (h related).bind fun value => h' value

theorem forM {action : β → Build PUnit} {xs : List β} (h : ∀ x ∈ xs, Parallel R (action x)) :
    Parallel R (xs.forM action) := by
  induction xs with
  | nil => exact pure _
  | cons x rest ih =>
    exact (h x List.mem_cons_self).bind fun _ => ih fun y mem => h y (List.mem_cons_of_mem _ mem)

theorem tryCatch {action : Build α} {handle : BuildError → Build α} (h : Parallel R action)
    (h' : ∀ error, Parallel R (handle error)) : Parallel R (tryCatch action handle) :=
  fun _ _ related => (h related).tryCatch fun error => h' error

theorem note (entry : LogEntry) : Parallel (AgreeOn o alike near) (note entry) :=
  fun _ _ agree => .ok (agree.note entry)

theorem warn (code message subject : String) :
    Parallel (AgreeOn o alike near) (warn code message subject) :=
  note _

theorem modifyClass {change : Class → Class} (keeps : ∀ c, (change c).outline = c.outline)
    (reflags : ∀ c c' : Class, c.Reflagged c' → (change c).Reflagged (change c'))
    (links : ∀ c, (change c).implemented = c.implemented) :
    Parallel (AgreeOn o alike near) (modifyClass id change) := fun m _ agree =>
  .ok (agree.modifyClass keeps reflags fun at_ => links (m.classAt id) ▸ agree.links id at_)

/-- What depends on the outline alone is the same in models that agree. -/
theorem of_reads {action : Build α} (h : Reads action) :
    Parallel (AgreeOn o alike near) action := by
  induction h with
  | pure value => exact pure value
  | throw named => exact throw _
  | report error subject =>
    intro m m' agree
    rw [run_reportUnreadable, run_reportUnreadable]
    exact .ok (agree.refuse error subject)
  | @look α next reads same ih =>
    refine getting fun m m' agree => ?_
    rw [← same m', agree.same_outline, same]
    exact ih m agree
  | bind _ _ ih ih' => exact ih.bind ih'

end Parallel

/-- What is known of the models at the end of two runs that end in the same way. -/
theorem EndsBy.mono_of_ends {S : Model → Model → Prop} {action action' : Build α} {m m' : Model}
    {P Q : Model → Prop} (h : EndsBy R (action.run m) (action'.run m'))
    (left : Ends action m (fun _ => P) fun _ => P) (right : Ends action' m' (fun _ => Q) fun _ => Q)
    (weaker : ∀ s s', R s s' → P s → Q s' → S s s') :
    EndsBy S (action.run m) (action'.run m') := by
  unfold Ends at left right
  generalize action.run m = r at h left
  generalize action'.run m' = r' at h right
  cases h with
  | ok related => exact .ok (weaker _ _ related left right)
  | error related => exact .error (weaker _ _ related left right)

theorem parallel_putMember (id : ClassId) (key : String) (member : Member) :
    Parallel (AgreeOn o alike near) (putMember id key member) :=
  .modifyClass (fun _ => rfl) (fun _ _ reflagged => by rw [Class.Reflagged, reflagged])
    fun _ => rfl

theorem parallel_setProgress (id : ClassId) (progress : Progress) :
    Parallel (AgreeOn o alike near) (setProgress id progress) :=
  .modifyClass (fun _ => rfl) (fun _ _ reflagged => reflagged.withProgress progress) fun _ => rfl

theorem parallel_copy_put (member : Member) (id : ClassId) (key : String) :
    Parallel (AgreeOn o alike near) (copyMember member id >>= putMember id key) :=
  (Parallel.of_reads (reads_copyMember member id)).bind fun _ => parallel_putMember id key _

/-- A parent that is the same in both models gives the same factory. -/
theorem parallel_adopt {parent : ClassId} (own : alike id) (other : alike parent) :
    Parallel (AgreeOn o alike near) (adopt id parent) := by
  refine Parallel.bind ?_ fun _ => .getting fun m m' agree => ?_
  · exact .modifyClass (fun _ => rfl) (fun _ _ reflagged => by rw [Class.Reflagged, reflagged])
      fun _ => rfl
  rw [agree.members own, agree.members other]
  split
  · exact .ok agree
  · split
    · exact .ok agree
    · exact parallel_copy_put _ id _ agree

/-- Linking a class to its parent is the same in both if the way to the parent is. -/
theorem parallel_linkParent {name : String} (own : alike id)
    (other : ∀ parent, o.found? name = some parent → alike parent)
    (enters : ∀ parent, o.found? name = some parent →
      Parallel (AgreeOn o alike near) (enter parent)) :
    Parallel (AgreeOn o alike near) (linkParent id name enter) := by
  refine .getting fun m m' agree => ?_
  rw [find?_of_outline_eq agree.same_outline, agree.fullName_eq]
  cases find : m.find? name with
  | error fault => exact .error agree
  | ok found =>
    cases found with
    | none => exact Parallel.warn _ _ _ agree
    | some parent =>
      have found : o.found? name = some parent := by
        rw [← found?_of_outline_eq agree.outline]
        exact found?_of_find? find
      exact ((enters parent found).bind fun _ => parallel_adopt own (other parent found)) agree

/-- So is linking it to a mixin. -/
theorem parallel_linkMixin {name : String} (own : alike id)
    (other : ∀ mixin, o.found? name = some mixin → alike mixin ∧ near mixin) :
    Parallel (AgreeOn o alike near) (linkMixin id name) := by
  refine .getting fun m m' agree => ?_
  have fullName : (m'.classAt id).fullName = (m.classAt id).fullName := by
    rw [agree.classes id own]
  dsimp only
  rw [find?_of_outline_eq agree.same_outline, agree.fullName_eq, fullName,
    agree.implemented own]
  cases find : m.find? name with
  | error fault => exact .error agree
  | ok found =>
    cases found with
    | none => exact Parallel.warn _ _ _ agree
    | some mixin =>
      have found : o.found? name = some mixin := by
        rw [← found?_of_outline_eq agree.outline]
        exact found?_of_find? find
      obtain ⟨alike', near'⟩ := other mixin found
      have progress : (m'.classAt mixin).progress = (m.classAt mixin).progress :=
        agree.progress alike'
      simp only [ofReading, pure_bind, progress]
      split
      · exact Parallel.warn _ _ _ agree
      split
      · exact .ok agree
      · refine .ok (agree.modifyClass (fun _ => rfl) (fun _ _ reflagged => ?_) fun at_ k mem => ?_)
        · rw [Class.Reflagged, reflagged]
        · rcases List.mem_append.1 mem with mem | mem
          · exact agree.links id at_ k mem
          · rwa [TypeRef.linked.inj (List.mem_singleton.1 mem)]

theorem parallel_mergeMember (own : alike id) (key : String) (member : Member) :
    Parallel (AgreeOn o alike near) (mergeMember id key member) := by
  unfold mergeMember
  split
  · exact .pure _
  refine .getting fun m m' agree => ?_
  have fullName : (m'.classAt id).fullName = (m.classAt id).fullName := by
    rw [agree.classes id own]
  dsimp only
  rw [agree.members own, fullName]
  split
  · exact parallel_copy_put member id key agree
  · split
    · exact ((parallel_putMember id key _).bind fun _ => .warn _ _ _) agree
    · exact .ok agree

/-- A mixin that is the same in both models brings the same members. -/
theorem parallel_absorb {mixin : ClassId} (own : alike id) (other : alike mixin) :
    Parallel (AgreeOn o alike near) (absorb id mixin) := by
  refine .getting fun m m' agree => ?_
  rw [agree.members other, agree.fullName_eq]
  exact (Parallel.forM fun _ _ => parallel_mergeMember own _ _).bind (fun _ => .note _) agree

/-- The mixins of a class of a closed set belong to the set, and they are brought in in the same way
in models that agree on the set. -/
theorem parallel_linkMixins (closed : ClosedUnderNames o alike near) (own : near id)
    (enters : ∀ k, near k → Parallel (AgreeOn o alike near) (enter k)) :
    Parallel (AgreeOn o alike near) (do
      (← orFault .unfit (o.classAt id).record.usedNames?).forM (linkMixin id)
      (((← get).classAt id).implemented.filterMap TypeRef.target?).forM fun mixin =>
        mergeMixin id mixin enter) := by
  have own' := closed.alike id own
  cases used : (o.classAt id).record.usedNames? with
  | none => exact .throw _
  | some names =>
    simp only [orFault, pure_bind]
    refine Parallel.bind (.forM fun name mem => ?_) fun _ => ?_
    · refine parallel_linkMixin own' fun mixin found => ?_
      have named : o.Names id mixin := by
        refine .inr (List.mem_filterMap.2 ⟨name, ?_, found⟩)
        rwa [usedNames, used]
      have near' := closed.names id own mixin named
      exact ⟨closed.alike mixin near', near'⟩
    · refine .getting fun m m' agree => ?_
      rw [agree.implemented own']
      refine Parallel.forM (fun mixin mem => ?_) agree
      have near' := agree.links id own mixin (TypeRef.mem_filterMap_target?.1 mem)
      exact (enters mixin near').bind fun _ => parallel_absorb own' (closed.alike mixin near')

/-- **Linking a class of a closed set is the same in models that agree on the set,** if the way to
the classes of the set is. -/
theorem parallel_link (closed : ClosedUnderNames o alike near) (own : near id)
    (enters : ∀ k, near k → Parallel (AgreeOn o alike near) (enter k)) :
    Parallel (AgreeOn o alike near) (link id enter) := by
  refine .getting fun m m' agree => ?_
  have record : (m.classAt id).record = (o.classAt id).record :=
    record_of_outline_eq agree.outline id
  have tree : m'.tree = m.tree := tree_of_outline_eq agree.same_outline
  dsimp only
  rw [record_of_outline_eq agree.same_outline, tree, record]
  have flags : Parallel (AgreeOn o alike near) (modifyClass id fun c =>
      { c with isNamespace := m.tree.contains (Forest.path c.fullName) }) :=
    .modifyClass (fun _ => rfl) (fun _ _ reflagged => by rw [Class.Reflagged, reflagged])
      fun _ => rfl
  have rest := parallel_linkMixins closed own enters
  refine (flags.bind fun _ => ?_) agree
  split
  · rename_i name named
    have leads : ∀ parent, o.found? name = some parent → near parent := fun parent found =>
      closed.names id own parent (.inl (by rw [Extends, parentOf?, named]; exact found))
    exact (parallel_linkParent (closed.alike id own)
      (fun parent found => closed.alike parent (leads parent found))
      fun parent found => enters parent (leads parent found)).bind fun _ => rest
  · exact rest

theorem parallel_resolveNew {body : Build Unit} (h : Parallel (AgreeOn o alike near) body) :
    Parallel (AgreeOn o alike near) (resolveNew id body) := by
  refine (parallel_setProgress id _).bind fun _ => (Parallel.tryCatch h fun error => ?_).bind
    fun _ => parallel_setProgress id _
  split
  · exact (parallel_setProgress id _).bind fun _ => .throw _
  · exact .throw _

theorem parallel_throwCycle (stack : List ClassId) (id : ClassId) :
    Parallel (AgreeOn o alike near) (throwCycle stack id) := by
  refine .getting fun m m' agree => ?_
  rw [agree.fullName_eq]
  split <;> exact .error agree

theorem parallel_reach (stack : List ClassId) (own : alike id) {whenNew : Build Unit}
    (h : Parallel (AgreeOn o alike near) whenNew) :
    Parallel (AgreeOn o alike near) (reach stack id whenNew) := by
  refine .getting fun m m' agree => ?_
  rw [agree.progress own]
  split
  · exact .ok agree
  · exact parallel_throwCycle stack id agree
  · exact h agree

theorem parallel_resolveWithin (closed : ClosedUnderNames o alike near) (room : Nat)
    (stack : List ClassId) (own : near id) :
    Parallel (AgreeOn o alike near) (resolveWithin room stack id) := by
  induction room generalizing stack id with
  | zero => exact parallel_reach stack (closed.alike id own) (.throw _)
  | succ room ih =>
    exact parallel_reach stack (closed.alike id own) (parallel_resolveNew
      (parallel_link closed own fun k near' => ih (stack ++ [id]) near'))

/-- **Resolving a class of a closed set is the same in models that agree on the set.** -/
theorem parallel_resolve (closed : ClosedUnderNames o alike near) (own : near id) :
    Parallel (AgreeOn o alike near) (resolve id) := by
  refine .getting fun m m' agree => ?_
  rw [length_classes_of_outline_eq agree.same_outline]
  exact parallel_resolveWithin closed _ [] own agree

end Build

namespace Model

open Build
open Relation (ReflTransGen)

variable {m m' m₀ s s' : Model} {half : ClassId → Prop} {id k : ClassId}

instance (m : Model) (id : ClassId) : Decidable (m.IsUnresolved id) :=
  inferInstanceAs (Decidable (_ = _))

/-- The model with its unresolved classes put back to what they were in `m₀`. -/
def putBack (m₀ m : Model) : Model :=
  { m with classes := m.classIds.map fun k =>
      if m.IsUnresolved k then m₀.classAt k else m.classAt k }

/-- Two models with the same reports in which all classes but those of `half` are the same; an
unresolved class may be flagged in another way. -/
structure SameBeside (half : ClassId → Prop) (m m' : Model) : Prop where
  outline : m'.outline = m.outline
  reported : m'.reported = m.reported
  log : m'.log = m.log
  classes : ∀ k, ¬ half k → (m.classAt k).Reflagged (m'.classAt k)
  resolved : ∀ k, ¬ half k → m.IsResolved k → m'.classAt k = m.classAt k

theorem classAt_putBack (outline : m.outline = m₀.outline) (k : ClassId) :
    (putBack m₀ m).classAt k =
      if m.IsUnresolved k then m₀.classAt k else m.classAt k := by
  rcases Nat.lt_or_ge k m.classes.length with registered | beyond
  · simp [putBack, classAt, classIds, List.getD_eq_getElem?_getD, registered]
  · have beyond₀ : m₀.classes.length ≤ k := by rwa [← length_classes_of_outline_eq outline]
    rw [classAt_of_le beyond, classAt_of_le beyond₀, ite_self, classAt_of_le]
    simpa [putBack, classIds] using beyond

theorem outline_putBack (outline : m.outline = m₀.outline) :
    (putBack m₀ m).outline = m.outline := by
  have classes : (putBack m₀ m).classes.map Class.outline = m.classes.map Class.outline := by
    refine List.ext_getElem (by simp [putBack, classIds]) fun k h h' => ?_
    have registered : k < m.classes.length := by simpa using h'
    have registered' : k < (putBack m₀ m).classes.length := by simpa using h
    have same : ((putBack m₀ m).classAt k).outline = (m.classAt k).outline := by
      rw [classAt_putBack outline]
      split
      · exact (class_outline_of_outline_eq outline k).symm
      · rfl
    rw [List.getElem_map, List.getElem_map]
    simpa [classAt, List.getD_eq_getElem?_getD, registered, registered'] using same
  rw [Model.outline, classes]
  rfl

/-- A consistent model stays consistent when its unresolved classes are put back. -/
theorem consistent_putBack (unlinked : m₀.Unlinked) (consistent : Consistent anyOrigin m)
    (outline : m.outline = m₀.outline) : Consistent anyOrigin (putBack m₀ m) := by
  have same := outline_putBack outline
  have kept : ∀ k, ¬ m.IsUnresolved k → (putBack m₀ m).classAt k = m.classAt k := fun k begun => by
    rw [classAt_putBack outline, if_neg begun]
  have back : ∀ k, m.IsUnresolved k → (putBack m₀ m).classAt k = m₀.classAt k := fun k new => by
    rw [classAt_putBack outline, if_pos new]
  have resolved : ∀ k, (putBack m₀ m).IsResolved k → m.IsResolved k := by
    intro k done
    by_cases new : m.IsUnresolved k
    · exact absurd (unlinked.unresolved k) (done.congr (back k new).symm).not_isUnresolved
    · exact done.congr (kept k new).symm
  have stays : ∀ k, m.IsResolved k → (putBack m₀ m).classAt k = m.classAt k :=
    fun k done => kept k done.not_isUnresolved
  refine ⟨⟨fun k entry mem => ?_, fun k => ?_⟩, fun k => ?_, fun k mixin link => ?_,
    fun k done => ?_, fun k done => ?_⟩
  · by_cases new : m.IsUnresolved k
    · rw [back k new] at mem
      exact (unlinked.sound.entry k entry mem).of_outline_eq (same.trans outline)
    · rw [kept k new] at mem
      exact (consistent.sound.entry k entry mem).of_outline_eq same
  · by_cases new : m.IsUnresolved k
    · rw [back k new]
      exact unlinked.sound.nodup k
    · rw [kept k new]
      exact consistent.sound.nodup k
  · by_cases new : m.IsUnresolved k
    · rw [back k new]
      exact .inl (unlinked.parent k)
    · rw [kept k new, parentOf?_of_outline_eq same]
      exact consistent.parent k
  · by_cases new : m.IsUnresolved k
    · rw [back k new] at link
      exact absurd link (unlinked.named k mixin)
    · rw [kept k new] at link
      rw [mixinsOf_of_outline_eq same]
      exact consistent.mixins k mixin link
  · exact (consistent.settled k (resolved k done)).congr stays
  · have done' := resolved k done
    obtain ⟨start, busy, -, linked⟩ := consistent.linked k done'
    refine ⟨start, busy, trivial, linked.congr same (List.prefix_refl _) ⟨_, stays k done'⟩ ?_⟩
    exact fun other link => stays other ((consistent.settled k done').link link).resolved

/-- In consistent models that agree the resolved classes are flagged in the same way. -/
theorem AgreeOn.sameBeside {near : ClassId → Prop}
    (h : AgreeOn m₀ (fun k => ¬ half k) near s s') (consistent : Consistent anyOrigin s)
    (consistent' : Consistent anyOrigin s') : SameBeside half s s' where
  outline := h.same_outline
  reported := h.reported
  log := h.log
  classes := h.classes
  resolved k outside done := by
    have reflagged := h.classes k outside
    have done' : s'.IsResolved k := (h.progress outside).trans done
    obtain ⟨_, _, -, linked⟩ := consistent.linked k done
    obtain ⟨_, _, -, linked'⟩ := consistent'.linked k done'
    have flag : (s'.classAt k).isNamespace = (s.classAt k).isNamespace := by
      rw [linked'.isNamespace, linked.isNamespace, tree_of_outline_eq h.same_outline]
      exact congrArg (fun name => s.tree.contains (Forest.path name)) (by rw [reflagged])
    rw [reflagged, flag]

/-- The model that a failed call leaves and the one with its unresolved classes put back agree on
the classes that are not half done. -/
theorem agreeOn_putBack (consistent : Consistent anyOrigin m) (outline : m.outline = m₀.outline) :
    AgreeOn m₀ (fun k => ¬ m₀.HalfDone m k)
      (fun k => ∀ other, ReflTransGen m₀.Names k other → ¬ m₀.HalfDone m other)
      m (putBack m₀ m) where
  outline := outline
  outline' := (outline_putBack outline).trans outline
  reported := rfl
  log := rfl
  classes k outside := by
    rw [classAt_putBack outline]
    split
    · rename_i new
      by_contra changed
      exact outside ⟨new, fun same => changed same.symm⟩
    · exact .refl _
  links k near mixin link := by
    have named : m₀.Names k mixin := by
      rw [← names_of_outline_eq outline]
      exact .inr (consistent.mixins k mixin link)
    exact fun other way => near other (way.head named)

/-- **What a call leaves that fails.**  Resolve a class of an assembled model, and let the call
report a cycle.

* A class that is unresolved then is as it was before the call, but for its flag, unless it is
  linked to a mixin already: then it is half done.
* No class is half done just when the way up from the class that was asked for comes to no end, so
  that the cycle consists of `extends` links that were reached along `extends` links.
* Let no name lead, at any distance, from a class to one that is half done.  Then resolving this
  class next ends as it would if the unresolved classes were put back: with the same error or with
  none, with the same reports, and with the same classes but for those that are half done. -/
theorem resolve_after_cycle {settings : Settings} {document : Document} {chain : List String}
    (assembled : (assemble document).run (empty settings) = .ok () m₀)
    (registered : id < m₀.classes.length)
    (failed : (resolve id).run m₀ = .error (.cycle chain) m) :
    (∀ k, m₀.HalfDone m k ↔ m.IsUnresolved k ∧ m.HasMixin k) ∧
    ((∀ k, ¬ m₀.HalfDone m k) ↔ m₀.Rootless id) ∧
    ∀ k < m₀.classes.length,
      (∀ other, ReflTransGen m₀.Names k other → ¬ m₀.HalfDone m other) →
      EndsBy (SameBeside (m₀.HalfDone m)) ((resolve k).run m)
        ((resolve k).run (putBack m₀ m)) := by
  have unlinked := (ends_assemble (unlinked_empty settings) document).of_ok assembled
  obtain ⟨halfDone, rooted⟩ := halfDone_of_cycle unlinked registered failed
  obtain ⟨consistent, advances⟩ :=
    (ends_resolve unlinked.consistent registered).of_error failed
  have outline := advances.outline
  have consistent' := consistent_putBack unlinked consistent outline
  have length := length_classes_of_outline_eq outline
  have length' := length_classes_of_outline_eq ((outline_putBack outline).trans outline)
  refine ⟨halfDone, ?_, fun k lt near => ?_⟩
  · rw [← not_exists, rooted, not_not]
  have closed : ClosedUnderNames m₀ (fun k => ¬ m₀.HalfDone m k)
      fun k => ∀ other, ReflTransGen m₀.Names k other → ¬ m₀.HalfDone m other :=
    ⟨fun k near => near k .refl, fun k near other named last way => near last (way.head named)⟩
  have ends := parallel_resolve closed near (agreeOn_putBack consistent outline)
  exact ends.mono_of_ends
    ((ends_resolve consistent (length ▸ lt)).mono (fun _ _ h => h.1) fun _ _ h => h.1)
    ((ends_resolve consistent' (length' ▸ lt)).mono (fun _ _ h => h.1) fun _ _ h => h.1)
    fun s s' => AgreeOn.sameBeside

/-- `A` uses `D` and `B`, `B` extends `A`, and `C` extends `D`. -/
def brokenOff : Document := .ofFields [
  ("classes", .obj [
    ("A", .obj [("uses", .arr [.str "D", .str "B"])]),
    ("B", .obj [("extends", .str "A")]),
    ("C", .obj [("extends", .str "D")]),
    ("D", .obj [])]),
  ("classitems", .arr [
    .obj [("class", .str "D"), ("name", .str "size"), ("itemtype", .str "property")]])]

/-- The model before any class is resolved. -/
def brokenStart : Model := after (assemble brokenOff) (empty .blank)

/-- The model after the call for `A`, which fails at `B`. -/
def brokenEnd : Model := after (resolve 0) brokenStart

/-- `A` is half done, and so the next call for `B` fails though it would end well.  The one for `C`,
which leads to `D` alone, is as good as ever. -/
theorem resolve_after_brokenOff :
    value (resolve 0) brokenStart = .error (.cycle ["A", "B", "A"]) ∧
    brokenStart.HalfDone brokenEnd 0 ∧ ¬ brokenStart.HalfDone brokenEnd 1 ∧
    brokenEnd.IsResolved 3 ∧ ¬ brokenStart.Rootless 0 ∧
    value (resolve 1) brokenEnd = .error (.cycle ["B", "A", "B"]) ∧
    value (resolve 1) (putBack brokenStart brokenEnd) = .ok () ∧
    EndsBy (SameBeside (brokenStart.HalfDone brokenEnd)) ((resolve 2).run brokenEnd)
      ((resolve 2).run (putBack brokenStart brokenEnd)) := by
  have assembled : (assemble brokenOff).run (empty .blank) = .ok () brokenStart :=
    run_of_succeeds (by decide +kernel)
  have registered : 0 < brokenStart.classes.length := by decide +kernel
  have failed : value (resolve 0) brokenStart = .error (.cycle ["A", "B", "A"]) := by
    decide +kernel
  have run : (resolve 0).run brokenStart = .error (.cycle ["A", "B", "A"]) brokenEnd :=
    run_of_value_error failed
  obtain ⟨halfDone, rooted, next⟩ := resolve_after_cycle assembled registered run
  have half : brokenStart.HalfDone brokenEnd 0 :=
    (halfDone 0).2 ⟨by decide +kernel, 3, by decide +kernel⟩
  have sound : ∀ k, (brokenEnd.classAt k).implemented = [] →
      ¬ brokenStart.HalfDone brokenEnd k := by
    intro k none left
    obtain ⟨-, mixin, linked⟩ := (halfDone k).1 left
    rw [none] at linked
    exact absurd linked List.not_mem_nil
  have names : brokenStart.parentOf? 2 = some 3 ∧ brokenStart.mixinsOf 2 = [] ∧
      brokenStart.parentOf? 3 = none ∧ brokenStart.mixinsOf 3 = [] := by decide +kernel
  have near : ∀ other, ReflTransGen brokenStart.Names 2 other → other = 2 ∨ other = 3 := by
    intro other way
    induction way with
    | refl => exact .inl rfl
    | tail _ named ih =>
      rw [Names, Extends] at named
      rcases ih with rfl | rfl
      · simp only [names, Option.some.injEq, List.not_mem_nil, or_false] at named
        exact .inr named.symm
      · simp [names] at named
  refine ⟨failed, half, sound 1 (by decide +kernel), by decide +kernel,
    fun rootless => rooted.2 rootless 0 half, by decide +kernel, by decide +kernel, ?_⟩
  refine next 2 (by decide +kernel) fun other way => ?_
  rcases near other way with rfl | rfl
  · exact sound 2 (by decide +kernel)
  · exact sound 3 (by decide +kernel)

end Model
end AmbientDecl
