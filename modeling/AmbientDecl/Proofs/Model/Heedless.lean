/- # Actions that do not look at the reports

No action of a run looks at what has been reported, but for one question: whether a type was
reported before.  The actions that are put together from steps of this kind are **heedless**
(`Build.Heedless`), and all that a run does is: registering and resolving classes
(`heedless_register`, `heedless_resolveAll`), attaching items (`heedless_attach`) and rendering
(`heedless_render`).

A relation between models with the same content **overlooks** what it leaves open in their reports
when every step of a heedless action keeps it.  Then a heedless action ends in the same way in
models that are related, and with models that are related (`Heedless.endsBy`).
-/

import AmbientDecl.Generation
import AmbientDecl.Proofs.Model.Hearing
import AmbientDecl.Proofs.Model.Reads

namespace AmbientDecl
namespace Model

variable {m m' : Model}

/-- Models that are related have the same content, and changing the content and adding to the
reports keeps them related. -/
structure Overlooks (R : Model → Model → Prop) : Prop where
  eq : ∀ {m m'}, R m m' → m' = { m with reported := m'.reported, log := m'.log }
  content : ∀ {m m'}, R m m' → ∀ c : Model, c.settings = m.settings →
    R { c with reported := m.reported, log := m.log }
      { c with reported := m'.reported, log := m'.log }
  note : ∀ {m m'}, R m m' → ∀ entry,
    R { m with log := m.log ++ [entry] } { m' with log := m'.log ++ [entry] }
  refuse : ∀ {m m'}, R m m' → ∀ error subject, R (m.refuse error subject) (m'.refuse error subject)

end Model

namespace Build

open Model

variable {α β : Type} {m m' : Model} {id : ClassId} {enter : ClassId → Build Unit}

/-- The actions that do not look at the reports, but for the types that were reported. -/
inductive Heedless : {α : Type} → Build α → Prop
  | pure {α : Type} (value : α) : Heedless (pure value)
  | throw {α : Type} (error : BuildError) : Heedless (throw error : Build α)
  | report (error : TypeExpr.SyntaxError) (subject : String) :
      Heedless (reportUnreadable error subject)
  | note (entry : LogEntry) : Heedless (note entry)
  | change {change : Model → Model} (settings : ∀ m, (change m).settings = m.settings)
      (plain : ∀ (m : Model) reported log,
        change { m with reported, log } = { change m with reported, log }) :
      Heedless (modify change)
  | look {α : Type} {next : Model → Build α} (heedless : ∀ m, Heedless (next m))
      (same : ∀ (m : Model) reported log, next { m with reported, log } = next m) :
      Heedless (get >>= next)
  | bind {α β : Type} {action : Build β} {next : β → Build α} (heedless : Heedless action)
      (others : ∀ value, Heedless (next value)) : Heedless (action >>= next)
  | tryCatch {α : Type} {action : Build α} {handle : BuildError → Build α}
      (heedless : Heedless action) (others : ∀ error, Heedless (handle error)) :
      Heedless (tryCatch action handle)

/-- Two runs end with the same value or with the same error, and with models that are related. -/
inductive EndsBy (R : Model → Model → Prop) :
    EStateM.Result BuildError Model α → EStateM.Result BuildError Model α → Prop
  | ok {value : α} {m m' : Model} (related : R m m') : EndsBy R (.ok value m) (.ok value m')
  | error {error : BuildError} {m m' : Model} (related : R m m') :
      EndsBy R (.error error m) (.error error m')

theorem EndsBy.mono {R S : Model → Model → Prop} {r r' : EStateM.Result BuildError Model α}
    (h : EndsBy R r r') (weaker : ∀ m m', R m m' → S m m') : EndsBy S r r' := by
  cases h with
  | ok related => exact .ok (weaker _ _ related)
  | error related => exact .error (weaker _ _ related)

/-- What follows two runs that end in the same way. -/
theorem EndsBy.bind {R : Model → Model → Prop} {action action' : Build β}
    {next next' : β → Build α} (h : EndsBy R (action.run m) (action'.run m'))
    (h' : ∀ value s s', R s s' → EndsBy R ((next value).run s) ((next' value).run s')) :
    EndsBy R ((action >>= next).run m) ((action' >>= next').run m') := by
  rw [EStateM.run_bind, EStateM.run_bind]
  generalize action.run m = r at h
  generalize action'.run m' = r' at h
  cases h with
  | ok related => exact h' _ _ _ related
  | error related => exact .error related

/-- What is caught in two runs that end in the same way. -/
theorem EndsBy.tryCatch {R : Model → Model → Prop} {action action' : Build α}
    {handle handle' : BuildError → Build α} (h : EndsBy R (action.run m) (action'.run m'))
    (h' : ∀ error s s', R s s' → EndsBy R ((handle error).run s) ((handle' error).run s')) :
    EndsBy R ((tryCatch action handle).run m) ((tryCatch action' handle').run m') := by
  rw [run_tryCatch, run_tryCatch]
  generalize action.run m = r at h
  generalize action'.run m' = r' at h
  cases h with
  | ok related => exact .ok related
  | error related => exact h' _ _ _ related

namespace Heedless

/-- **A heedless action does the same in models that differ in their reports.** -/
theorem endsBy {R : Model → Model → Prop} (laws : Overlooks R) {action : Build α}
    (h : Heedless action) {m m' : Model} (related : R m m') :
    EndsBy R (action.run m) (action.run m') := by
  induction h generalizing m m' with
  | pure value => exact .ok related
  | throw error => exact .error related
  | report error subject =>
    rw [run_reportUnreadable, run_reportUnreadable]
    exact .ok (laws.refuse related error subject)
  | note entry => exact .ok (laws.note related entry)
  | @change change settings plain =>
    have first : change m = { change m with reported := m.reported, log := m.log } := plain m _ _
    have second : change m' = { change m with reported := m'.reported, log := m'.log } := by
      rw [laws.eq related]
      exact plain m _ _
    have changed : R (change m) (change m') := by
      rw [first, second]
      exact laws.content related (change m) (settings m)
    exact .ok changed
  | @look α next heedless same ih =>
    have next_eq : next m' = next m := by
      rw [laws.eq related]
      exact same m _ _
    have run : EndsBy R ((next m).run m) ((next m').run m') := by
      rw [next_eq]
      exact ih m related
    exact run
  | bind _ _ ih ih' => exact (ih related).bind fun value _ _ => ih' value
  | tryCatch _ _ ih ih' => exact (ih related).tryCatch fun error _ _ => ih' error

theorem warn (code message subject : String) : Heedless (warn code message subject) := .note _

theorem modifyClass (id : ClassId) (change : Class → Class) : Heedless (modifyClass id change) :=
  .change (fun _ => rfl) fun _ _ _ => rfl

theorem of_reading (reading : Except ShapeFault α) : Heedless (ofReading reading) := by
  cases reading with
  | ok value => exact .pure value
  | error fault => exact .throw (.shape fault)

theorem orFault (fault : ShapeFault) (value? : Option α) : Heedless (orFault fault value?) := by
  cases value? with
  | some value => exact .pure value
  | none => exact .throw (.shape fault)

theorem map {action : Build β} (f : β → α) (h : Heedless action) : Heedless (f <$> action) := by
  rw [map_eq_pure_bind]
  exact h.bind fun value => .pure (f value)

theorem forM {action : β → Build PUnit} (h : ∀ x, Heedless (action x)) (xs : List β) :
    Heedless (xs.forM action) := by
  induction xs with
  | nil => exact .pure _
  | cons x rest ih => exact (h x).bind fun _ => ih

/-- What depends on the outline alone does not depend on the reports. -/
theorem of_reads {action : Build α} (h : Reads action) : Heedless action := by
  induction h with
  | pure value => exact .pure value
  | throw named => exact .throw _
  | report error subject => exact .report error subject
  | @look α next reads same ih =>
    refine .look ih fun m reported log => ?_
    rw [← same, ← same m]
    rfl
  | bind _ _ ih ih' => exact ih.bind ih'

end Heedless

theorem heedless_setProgress (id : ClassId) (progress : Progress) :
    Heedless (setProgress id progress) :=
  .modifyClass _ _

/-- A member is copied and stored in the same way. -/
theorem heedless_copy_put (member : Member) (id : ClassId) (key : String) :
    Heedless (copyMember member id >>= putMember id key) :=
  (Heedless.of_reads (reads_copyMember member id)).bind fun _ => .modifyClass _ _

theorem heedless_adopt (id parent : ClassId) : Heedless (adopt id parent) := by
  refine .bind (.modifyClass _ _) fun _ => .look (fun m => ?_) fun _ _ _ => rfl
  split
  · exact .pure _
  · split
    · exact .pure _
    · exact heedless_copy_put _ _ _

theorem heedless_linkParent (id : ClassId) (name : String) (enters : ∀ k, Heedless (enter k)) :
    Heedless (linkParent id name enter) := by
  refine .look (fun m => ?_) fun _ _ _ => rfl
  refine (Heedless.of_reading _).bind fun found => ?_
  split
  · exact .warn _ _ _
  · exact (enters _).bind fun _ => heedless_adopt _ _

theorem heedless_linkMixin (id : ClassId) (name : String) : Heedless (linkMixin id name) := by
  refine .look (fun m => ?_) fun _ _ _ => rfl
  refine (Heedless.of_reading _).bind fun found => ?_
  split
  · exact .warn _ _ _
  · split
    · exact .warn _ _ _
    split
    · exact .pure _
    · exact .modifyClass _ _

theorem heedless_mergeMember (id : ClassId) (key : String) (member : Member) :
    Heedless (mergeMember id key member) := by
  unfold mergeMember
  split
  · exact .pure _
  refine .look (fun m => ?_) fun _ _ _ => rfl
  dsimp only
  split
  · exact heedless_copy_put _ _ _
  · split
    · exact (Heedless.modifyClass _ _).bind fun _ => .warn _ _ _
    · exact .pure _

theorem heedless_absorb (id mixin : ClassId) : Heedless (absorb id mixin) :=
  .look (fun _ => (Heedless.forM (fun _ => heedless_mergeMember _ _ _) _).bind fun _ => .note _)
    fun _ _ _ => rfl

theorem heedless_link (id : ClassId) (enters : ∀ k, Heedless (enter k)) :
    Heedless (link id enter) := by
  refine .look (fun m => ?_) fun _ _ _ => rfl
  refine .bind (.modifyClass _ _) fun _ => ?_
  have mixins : ∀ names? : Option (List String), Heedless (do
      (← orFault .unfit names?).forM (linkMixin id)
      (((← get).classAt id).implemented.filterMap TypeRef.target?).forM fun mixin =>
        mergeMixin id mixin enter) := by
    intro names?
    refine (Heedless.orFault _ _).bind fun names => ?_
    refine (Heedless.forM (heedless_linkMixin id) _).bind fun _ => ?_
    refine .look (fun m' => .forM (fun mixin => ?_) _) fun _ _ _ => rfl
    exact (enters mixin).bind fun _ => heedless_absorb id mixin
  split
  · exact (heedless_linkParent id _ enters).bind fun _ => mixins _
  · exact mixins _

theorem heedless_resolveNew (id : ClassId) {body : Build Unit} (h : Heedless body) :
    Heedless (resolveNew id body) := by
  refine (heedless_setProgress _ _).bind fun _ => Heedless.bind ?_ fun _ =>
    heedless_setProgress _ _
  refine h.tryCatch fun error => ?_
  split
  · exact (heedless_setProgress _ _).bind fun _ => .throw _
  · exact .throw _

theorem heedless_reach (stack : List ClassId) (id : ClassId) {whenNew : Build Unit}
    (h : Heedless whenNew) : Heedless (reach stack id whenNew) := by
  refine .look (fun m => ?_) fun _ _ _ => rfl
  split
  · exact .pure _
  · refine .look (fun m' => ?_) fun _ _ _ => rfl
    split <;> exact .throw _
  · exact h

theorem heedless_resolveWithin (room : Nat) (stack : List ClassId) (id : ClassId) :
    Heedless (resolveWithin room stack id) := by
  induction room generalizing stack id with
  | zero => exact heedless_reach stack id (.throw _)
  | succ room ih =>
    exact heedless_reach stack id (heedless_resolveNew id (heedless_link id (ih (stack ++ [id]))))

theorem heedless_resolve (id : ClassId) : Heedless (resolve id) :=
  .look (fun m => heedless_resolveWithin (m.classes.length + 1) [] id) fun _ _ _ => rfl

/-- **Resolving classes is heedless.** -/
theorem heedless_resolveAll (ids : List ClassId) : Heedless (resolveAll ids) :=
  .forM heedless_resolve ids

theorem heedless_addClass (c : Class) : Heedless (addClass c) := by
  have parts : addClass c = (do
      let m ← get
      modify fun m => { m with classes := m.classes ++ [c] }
      return m.classes.length) := rfl
  rw [parts]
  refine .look (fun m => ?_) fun _ _ _ => rfl
  exact Heedless.bind (.change (fun _ => rfl) fun _ _ _ => rfl) fun _ => .pure _

/-- **So is registering a class.** -/
theorem heedless_register (key : String) (record? : Option ClassRecord) :
    Heedless (register key record?) := by
  refine .look (fun m => ?_) fun _ _ _ => rfl
  refine (Heedless.of_reading _).bind fun slot => Heedless.bind ?_ fun _ => ?_
  · exact .change (fun _ => rfl) fun _ _ _ => rfl
  refine .look (fun m' => ?_) fun _ _ _ => rfl
  split
  · exact (Heedless.warn _ _ _).bind fun _ => .pure _
  · refine (Heedless.orFault _ _).bind fun record => (Heedless.of_reading _).bind fun override => ?_
    exact (heedless_addClass _).bind fun id => (Heedless.of_reading _).bind fun owner =>
      (Heedless.note _).bind fun _ => .pure _

theorem namespaceBlocks_of_reports (m : Model) (reported : List String) (log : List LogEntry)
    (path : List String) (forest : Forest) :
    Output.namespaceBlocks { m with reported, log } path forest =
      Output.namespaceBlocks m path forest := by
  have members : Output.documentedTexts { m with reported, log } = Output.documentedTexts m := rfl
  have classes : Output.classBlocks { m with reported, log } = Output.classBlocks m := rfl
  induction forest generalizing path with
  | nil => rfl
  | node name children rest ih ih' =>
    rw [Output.namespaceBlocks, Output.namespaceBlocks, members, classes, ih, ih']

/-- **What is rendered does not show the reports.** -/
theorem heedless_render : Heedless (do ofReading (Output.render (← get))) := by
  refine .look (fun m => .of_reading _) fun m reported log => ?_
  have classes : Output.classBlocks { m with reported, log } = Output.classBlocks m := rfl
  have layout : Output.layout { m with reported, log } = Output.layout m := by
    rw [Output.layout, Output.layout, namespaceBlocks_of_reports, classes]
  rw [Output.render, Output.render, layout]

/-- **Attaching an item is heedless.** -/
theorem heedless_attach (entry : ItemEntry) : Heedless (attach entry) := by
  have attachMember : ∀ id item, Heedless (attachMember id item) := by
    intro id item
    refine (Heedless.of_reads (reads_buildMember item id)).bind fun member => ?_
    refine Heedless.bind (.look (fun m => ?_) fun _ _ _ => rfl) fun added => ?_
    · dsimp only
      split
      · exact (Heedless.warn _ _ _).bind fun _ => .pure _
      · exact (Heedless.modifyClass _ _).bind fun _ => .pure _
    · split
      · refine Heedless.bind (.look (fun m => ?_) fun _ _ _ => rfl) fun _ => .pure _
        dsimp only
        split
        · exact .warn _ _ _
        · exact .pure _
      · exact .pure _
  unfold attach
  split
  · exact .throw _
  · refine .look (fun m => (Heedless.of_reading _).bind fun ignored => ?_) fun _ _ _ => rfl
    split
    · exact .pure _
    · exact .throw _
  · exact (Heedless.note _).bind fun _ => .pure _
  · refine .look (fun m => (Heedless.of_reading _).bind fun ignored => ?_) fun _ _ _ => rfl
    split
    · exact .pure _
    refine Heedless.bind (.look (fun m => (Heedless.of_reading _).bind fun slot => ?_)
      fun _ _ _ => rfl) fun found => ?_
    · split
      · exact .pure _
      · exact .throw _
    split
    · exact (Heedless.warn _ _ _).bind fun _ => .pure _
    · split
      · exact .pure _
      · exact .throw _
      · exact attachMember _ _

end Build
end AmbientDecl
