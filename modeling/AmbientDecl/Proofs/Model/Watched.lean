/- # The resolver under watch

The resolver hands the stack of the classes that are being resolved from call to call.  A watcher
keeps this stack beside the model, as one that grows when a class is put on it and shrinks when
the class leaves it, and notes three moments of every call, nested or not: when the call begins,
when its class has been put on the stack, and when the call ends.  Each note holds the stack and
the model of its moment.

The watched resolver does to the model what the resolver does (`Follows`): with one stack both end
alike, with one model, and the watched stack is in the end what it was at the start.  So what the
notes of watched calls show is what the calls of the resolver go through.
-/

import AmbientDecl.Model.Resolution
import AmbientDecl.Proofs.Action.Ends

namespace AmbientDecl

/-- What is noted of a call. -/
inductive Event where
  /-- The call begins. -/
  | called
  /-- The class of the call has been put on the stack. -/
  | entered
  /-- The call ends well. -/
  | returned
  /-- The call ends with an error. -/
  | raised (error : BuildError)

/-- A moment of a call that resolves the class `id`. -/
structure Moment where
  event : Event
  id : ClassId
  stack : List ClassId
  model : Model

/-- A model with the stack of the classes that are being resolved and the moments noted so far. -/
structure Watched where
  model : Model
  stack : List ClassId
  moments : List Moment

/-- An action under watch. -/
abbrev Watching := EStateM BuildError Watched

namespace Watching

open Build (Ends ends_bind ends_get ends_modify ends_pure ends_throw ends_tryCatch)

variable {α β : Type}

/-- An action on the model. -/
def act (action : Build α) : Watching α := fun w =>
  match action.run w.model with
  | .ok value m => .ok value { w with model := m }
  | .error error m => .error error { w with model := m }

/-- Notes a moment of the call for a class. -/
def look (event : Event) (id : ClassId) : Watching Unit :=
  modify fun w => { w with moments := w.moments ++ [⟨event, id, w.stack, w.model⟩] }

/-- Puts a class on the stack. -/
def push (id : ClassId) : Watching Unit :=
  modify fun w => { w with stack := w.stack ++ [id] }

/-- Takes the last class from the stack. -/
def pop : Watching Unit :=
  modify fun w => { w with stack := w.stack.dropLast }

/-- Notes how a call begins and ends. -/
def call (id : ClassId) (body : Watching Unit) : Watching Unit := do
  look .called id
  tryCatch body fun error => do
    look (.raised error) id
    throw error
  look .returned id

/-- Links a class to the parent of a name, once the parent is resolved. -/
def linkParent (id : ClassId) (parentName : String) (enter : ClassId → Watching Unit) :
    Watching Unit := do
  let m := (← get).model
  match ← act (Build.ofReading (m.find? parentName)) with
  | none =>
    act (Build.warn Diagnostic.unresolvedExtends
      ("Can't find extended class; child=" ++ m.fullName id ++ " parent=" ++ parentName)
      (m.fullName id))
  | some parent =>
    enter parent
    act (Build.adopt id parent)

/-- Brings the members of a mixin, once it is resolved, into a class. -/
def mergeMixin (id mixin : ClassId) (enter : ClassId → Watching Unit) : Watching Unit := do
  enter mixin
  act (Build.absorb id mixin)

/-- Links a class to all that its record names; `enter` resolves another class. -/
def link (id : ClassId) (enter : ClassId → Watching Unit) : Watching Unit := do
  let m := (← get).model
  let record := (m.classAt id).record
  act (Build.modifyClass id fun c =>
    { c with isNamespace := m.tree.contains (Forest.path c.fullName) })
  match record.parentName? with
  | some parentName => linkParent id parentName enter
  | none => pure ()
  let names ← act (Build.orFault .unfit record.usedNames?)
  act (names.forM (Build.linkMixin id))
  (((← get).model.classAt id).implemented.filterMap TypeRef.target?).forM fun mixin =>
    mergeMixin id mixin enter

/-- Resolves a class that is new: it is on the stack while `body` links it. -/
def resolveNew (id : ClassId) (body : Watching Unit) : Watching Unit := do
  act (Build.setProgress id .resolving)
  push id
  look .entered id
  tryCatch body fun error => do
    if error.isFinding then act (Build.setProgress id .unresolved)
    pop
    throw error
  pop
  act (Build.setProgress id .resolved)

/-- Acts on a class by its progress; `whenNew` resolves one that is not resolved yet. -/
def reach (id : ClassId) (whenNew : Watching Unit) : Watching Unit := do
  let w ← get
  match (w.model.classAt id).progress with
  | .resolved => pure ()
  | .resolving => act (Build.throwCycle w.stack id)
  | .unresolved => whenNew

/-- Resolves a class while the classes on the stack are being resolved. -/
def resolveWithin : (room : Nat) → ClassId → Watching Unit
  | 0, id => call id (reach id (throw .abandonedClass))
  | room + 1, id => call id (reach id (resolveNew id (link id (resolveWithin room))))

/-- Resolves a class. -/
def resolve (id : ClassId) : Watching Unit := do
  resolveWithin ((← get).model.classes.length + 1) id

/-- Resolves classes in the given order. -/
def resolveAll (ids : List ClassId) : Watching Unit :=
  ids.forM resolve

variable {w : Watched}

theorem ends_act {action : Build α} {done : α → Watched → Prop}
    {failed : BuildError → Watched → Prop} :
    Ends (act action) w done failed ↔
      Ends action w.model (fun value m => done value { w with model := m })
        fun error m => failed error { w with model := m } := by
  have run : (act action).run w = act action w := rfl
  unfold Ends
  rw [run, act]
  cases action.run w.model <;> rfl

/-- A watched action that starts with the stack `stack` does to the model what an action does, and
leaves the stack as it was. -/
def Follows (stack : List ClassId) (watched : Watching α) (action : Build α) : Prop :=
  ∀ w : Watched, w.stack = stack → Ends watched w
    (fun value w' => w'.stack = stack ∧ action.run w.model = .ok value w'.model)
    fun error w' => w'.stack = stack ∧ action.run w.model = .error error w'.model

namespace Follows

variable {stack : List ClassId}

theorem act (action : Build α) : Follows stack (act action) action := by
  intro w same
  rw [ends_act]
  exact Build.ends_of (fun _ _ run => ⟨same, run⟩) fun _ _ run => ⟨same, run⟩

theorem pure (value : α) : Follows stack (pure value : Watching α) (pure value : Build α) :=
  fun _ same => ⟨same, rfl⟩

theorem throw (error : BuildError) :
    Follows stack (throw error : Watching α) (throw error : Build α) :=
  fun _ same => ⟨same, rfl⟩

theorem bind {watched : Watching β} {action : Build β} {next : β → Watching α}
    {next' : β → Build α} (h : Follows stack watched action)
    (h' : ∀ value, Follows stack (next value) (next' value)) :
    Follows stack (watched >>= next) (action >>= next') := by
  intro w same
  rw [ends_bind]
  refine (h w same).mono ?_ ?_
  · rintro value w₁ ⟨same₁, run⟩
    rw [EStateM.run_bind, run]
    exact h' value w₁ same₁
  · rintro error w₁ ⟨same₁, run⟩
    rw [EStateM.run_bind, run]
    exact ⟨same₁, rfl⟩

/-- A watched action may look at the model. -/
theorem getting {next : Watched → Watching α} {next' : Model → Build α}
    (h : ∀ w : Watched, w.stack = stack → Follows stack (next w) (next' w.model)) :
    Follows stack (get >>= next) (get >>= next') := by
  intro w same
  rw [ends_bind, ends_get]
  exact h w same w same

theorem forM {watched : β → Watching PUnit} {action : β → Build PUnit}
    (h : ∀ x, Follows stack (watched x) (action x)) (xs : List β) :
    Follows stack (xs.forM watched) (xs.forM action) := by
  induction xs with
  | nil => exact .pure _
  | cons x rest ih => exact (h x).bind fun _ => ih

/-- Notes change nothing but the moments noted. -/
theorem call {watched : Watching Unit} {action : Build Unit} (h : Follows stack watched action)
    (id : ClassId) : Follows stack (call id watched) action := by
  intro w same
  unfold Watching.call look
  rw [ends_bind, ends_modify, ends_bind, ends_tryCatch]
  refine (h { w with moments := w.moments ++ [⟨.called, id, w.stack, w.model⟩] } same).mono ?_ ?_
  · exact fun _ _ first => first
  · exact fun _ _ first => first

end Follows

variable {stack : List ClassId} {id : ClassId}

theorem follows_linkParent {enter : ClassId → Watching Unit} {enter' : ClassId → Build Unit}
    (rule : ∀ k, Follows stack (enter k) (enter' k)) (parentName : String) :
    Follows stack (linkParent id parentName enter) (Build.linkParent id parentName enter') := by
  refine .getting fun w _ => ?_
  refine (Follows.act _).bind fun found => ?_
  cases found with
  | none => exact .act _
  | some parent => exact (rule parent).bind fun _ => .act _

theorem follows_link {enter : ClassId → Watching Unit} {enter' : ClassId → Build Unit}
    (rule : ∀ k, Follows stack (enter k) (enter' k)) :
    Follows stack (link id enter) (Build.link id enter') := by
  refine .getting fun w _ => ?_
  refine (Follows.act _).bind fun _ => ?_
  have rest : Follows stack
      (do
        let names ← act (Build.orFault .unfit (w.model.classAt id).record.usedNames?)
        act (names.forM (Build.linkMixin id))
        (((← get).model.classAt id).implemented.filterMap TypeRef.target?).forM fun mixin =>
          mergeMixin id mixin enter)
      (do
        (← Build.orFault .unfit (w.model.classAt id).record.usedNames?).forM (Build.linkMixin id)
        (((← get).classAt id).implemented.filterMap TypeRef.target?).forM fun mixin =>
          Build.mergeMixin id mixin enter') := by
    refine (Follows.act _).bind fun names => (Follows.act _).bind fun _ => ?_
    refine .getting fun w₁ _ => .forM (fun mixin => ?_) _
    exact (rule mixin).bind fun _ => .act _
  dsimp only
  cases (w.model.classAt id).record.parentName? with
  | none => exact rest
  | some parentName => exact (follows_linkParent rule parentName).bind fun _ => rest

theorem follows_resolveNew {body : Watching Unit} {body' : Build Unit}
    (h : Follows (stack ++ [id]) body body') :
    Follows stack (resolveNew id body) (Build.resolveNew id body') := by
  intro w same
  unfold resolveNew push look pop
  rw [ends_bind, ends_act]
  unfold Build.setProgress
  rw [Build.ends_modifyClass, ends_bind, ends_modify, ends_bind, ends_modify, ends_bind,
    ends_tryCatch]
  generalize started : w.model.modifyClass id _ = m₁
  have begun := h ⟨m₁, w.stack ++ [id], w.moments ++ [⟨.entered, id, w.stack ++ [id], m₁⟩]⟩
    (by rw [same])
  refine begun.mono ?_ ?_
  · rintro _ w₂ ⟨same₂, run⟩
    rw [ends_bind, ends_modify, ends_act, Build.ends_modifyClass]
    refine ⟨by simp [same₂], ?_⟩
    unfold Build.resolveNew Build.setProgress
    rw [EStateM.run_bind, Build.run_modifyClass, started]
    dsimp only
    rw [EStateM.run_bind, Build.run_tryCatch, run]
    rfl
  · rintro error w₂ ⟨same₂, run⟩
    have plain : (Build.resolveNew id body').run w.model = .error error
        (if error.isFinding then w₂.model.modifyClass id ({ · with progress := .unresolved })
        else w₂.model) := by
      unfold Build.resolveNew Build.setProgress
      rw [EStateM.run_bind, Build.run_modifyClass, started]
      dsimp only
      rw [EStateM.run_bind, Build.run_tryCatch, run]
      cases finding : error.isFinding
      all_goals
        simp only [finding]
        rfl
    rw [plain]
    cases finding : error.isFinding with
    | false =>
      rw [if_neg Bool.false_ne_true, if_neg Bool.false_ne_true, ends_bind, ends_modify, ends_throw]
      exact ⟨by simp [same₂], rfl⟩
    | true =>
      rw [if_pos rfl, if_pos rfl, ends_bind, ends_act, Build.ends_modifyClass, ends_bind,
        ends_modify, ends_throw]
      exact ⟨by simp [same₂], rfl⟩

theorem follows_reach {whenNew : Watching Unit} {whenNew' : Build Unit}
    (h : Follows stack whenNew whenNew') :
    Follows stack (reach id whenNew) (Build.reach stack id whenNew') := by
  refine .getting fun w same => ?_
  subst same
  cases (w.model.classAt id).progress with
  | unresolved => exact h
  | resolving => exact .act _
  | resolved => exact .pure ()

/-- **The watched resolver does what the resolver does.** -/
theorem follows_resolveWithin (room : Nat) (stack : List ClassId) (id : ClassId) :
    Follows stack (resolveWithin room id) (Build.resolveWithin room stack id) := by
  induction room generalizing stack id with
  | zero => exact (follows_reach (.throw _)).call id
  | succ room ih =>
    exact (follows_reach (follows_resolveNew (follows_link (ih (stack ++ [id]))))).call id

theorem follows_resolve (id : ClassId) : Follows [] (resolve id) (Build.resolve id) :=
  .getting fun _ _ => follows_resolveWithin _ [] id

theorem follows_resolveAll (ids : List ClassId) :
    Follows [] (resolveAll ids) (Build.resolveAll ids) :=
  .forM follows_resolve ids

end Watching
end AmbientDecl
