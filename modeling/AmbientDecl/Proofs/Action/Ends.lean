/- # How an action ends

An action on a state ends with a value or with an error, and with a state in both cases.
`Ends action m done failed` says what holds then: `done` of the value and the state, or `failed`
of the error and the state.  The rules below say it for every way in which actions are put
together, so that a statement about an action is proved step by step, with a step for each of its
parts.  `Ends.forM` is the rule for a loop, where the loop's invariant may speak of the elements
that are left.  The last rules are those for the actions on the model.
-/

import AmbientDecl.Model.Basic

namespace AmbientDecl
namespace Build

variable {ε σ α β : Type}

/-- What holds when an action started in the state `m` has ended. -/
def Ends (action : EStateM ε σ α) (m : σ) (done : α → σ → Prop) (failed : ε → σ → Prop) : Prop :=
  match action.run m with
  | .ok value m' => done value m'
  | .error error m' => failed error m'

variable {m : σ} {done : α → σ → Prop} {failed : ε → σ → Prop}

theorem Ends.of_ok {action : EStateM ε σ α} {value : α} {m' : σ} (h : Ends action m done failed)
    (run : action.run m = .ok value m') : done value m' := by
  simpa only [Ends, run] using h

theorem Ends.of_error {action : EStateM ε σ α} {error : ε} {m' : σ}
    (h : Ends action m done failed) (run : action.run m = .error error m') : failed error m' := by
  simpa only [Ends, run] using h

/-- What is known of the two endings of a run is what holds when it has ended. -/
theorem ends_of {action : EStateM ε σ α}
    (ok : ∀ value m', action.run m = .ok value m' → done value m')
    (error : ∀ error m', action.run m = .error error m' → failed error m') :
    Ends action m done failed := by
  unfold Ends
  split
  · exact ok _ _ ‹_›
  · exact error _ _ ‹_›

/-- An action that never fails has a value. -/
theorem Ends.exists_ok {action : EStateM ε σ α} (h : Ends action m done fun _ _ => False) :
    ∃ value m', action.run m = .ok value m' ∧ done value m' := by
  unfold Ends at h
  split at h
  · exact ⟨_, _, ‹_›, h⟩
  · exact h.elim

/-- The model that an action leaves, however it ends. -/
def after (action : Build α) (m : Model) : Model :=
  match action.run m with
  | .ok _ m' => m'
  | .error _ m' => m'

/-- Whether an action ends with a value. -/
def succeeds (action : Build α) (m : Model) : Bool :=
  match action.run m with
  | .ok _ _ => true
  | .error _ _ => false

theorem exists_of_succeeds {action : Build α} {m : Model} (h : succeeds action m = true) :
    ∃ value, action.run m = .ok value (after action m) := by
  unfold succeeds at h
  unfold after
  cases run : action.run m with
  | ok value m' => exact ⟨value, rfl⟩
  | error error m' =>
    rw [run] at h
    cases h

theorem run_of_succeeds {action : Build Unit} {m : Model} (h : succeeds action m = true) :
    action.run m = .ok () (after action m) := by
  obtain ⟨value, run⟩ := exists_of_succeeds h
  exact run

/-- What holds of the model after both endings holds of the model that is left. -/
theorem Ends.after {action : Build α} {m : Model} {done : α → Model → Prop}
    {failed : BuildError → Model → Prop} {holds : Model → Prop} (h : Ends action m done failed)
    (ok : ∀ value m', done value m' → holds m') (error : ∀ error m', failed error m' → holds m') :
    holds (Build.after action m) := by
  unfold Build.after
  split
  · exact ok _ _ (h.of_ok ‹_›)
  · exact error _ _ (h.of_error ‹_›)

/-- Weaker statements about the two endings hold too. -/
theorem Ends.mono {action : EStateM ε σ α} {done' : α → σ → Prop} {failed' : ε → σ → Prop}
    (h : Ends action m done failed) (ok : ∀ value m', done value m' → done' value m')
    (error : ∀ error m', failed error m' → failed' error m') : Ends action m done' failed' :=
  ends_of (fun _ _ run => ok _ _ (h.of_ok run)) fun _ _ run => error _ _ (h.of_error run)

/-- Two statements about the same run hold together. -/
theorem Ends.and {action : EStateM ε σ α} {done' : α → σ → Prop} {failed' : ε → σ → Prop}
    (h : Ends action m done failed) (h' : Ends action m done' failed') :
    Ends action m (fun value m' => done value m' ∧ done' value m')
      fun error m' => failed error m' ∧ failed' error m' :=
  ends_of (fun _ _ run => ⟨h.of_ok run, h'.of_ok run⟩)
    fun _ _ run => ⟨h.of_error run, h'.of_error run⟩

theorem ends_bind {action : EStateM ε σ β} {next : β → EStateM ε σ α} :
    Ends (action >>= next) m done failed ↔
      Ends action m (fun value m' => Ends (next value) m' done failed) failed := by
  unfold Ends
  rw [EStateM.run_bind]
  cases action.run m <;> rfl

@[simp] theorem ends_pure {value : α} :
    Ends (pure value : EStateM ε σ α) m done failed ↔ done value m := Iff.rfl

@[simp] theorem ends_throw {error : ε} :
    Ends (throw error : EStateM ε σ α) m done failed ↔ failed error m := Iff.rfl

@[simp] theorem ends_get {done : σ → σ → Prop} :
    Ends (get : EStateM ε σ σ) m done failed ↔ done m m := Iff.rfl

@[simp] theorem ends_set {m' : σ} {done : PUnit → σ → Prop} :
    Ends (set m' : EStateM ε σ PUnit) m done failed ↔ done ⟨⟩ m' := Iff.rfl

@[simp] theorem ends_modify {change : σ → σ} {done : PUnit → σ → Prop} :
    Ends (modify change : EStateM ε σ PUnit) m done failed ↔ done ⟨⟩ (change m) := Iff.rfl

theorem ends_map {action : EStateM ε σ β} {f : β → α} :
    Ends (f <$> action) m done failed ↔
      Ends action m (fun value m' => done (f value) m') failed := by
  unfold Ends
  simp only [EStateM.run, Functor.map, EStateM.map]
  cases action m <;> rfl

theorem ends_discard {action : EStateM ε σ β} {done : PUnit → σ → Prop} :
    Ends (discard action) m done failed ↔ Ends action m (fun _ m' => done ⟨⟩ m') failed :=
  ends_map

/-- What is caught is dealt with in the state that the error left. -/
theorem run_tryCatch (action : EStateM ε σ α) (handle : ε → EStateM ε σ α) (m : σ) :
    (tryCatch action handle).run m = match action.run m with
      | .ok value m' => .ok value m'
      | .error error m' => (handle error).run m' := by
  have caught : (tryCatch action handle).run m = EStateM.tryCatch action handle m := rfl
  rw [caught]
  delta EStateM.tryCatch EStateM.run
  cases action m <;> rfl

theorem ends_tryCatch {action : EStateM ε σ α} {handle : ε → EStateM ε σ α} :
    Ends (tryCatch action handle) m done failed ↔
      Ends action m done fun error m' => Ends (handle error) m' done failed := by
  unfold Ends
  rw [run_tryCatch]
  cases action.run m <;> rfl

/-- What is attempted ends with the value of the action or with its error. -/
theorem run_attempt (action : Build α) (m : Model) :
    (attempt action).run m = match action.run m with
      | .ok value m' => .ok (.ok value) m'
      | .error error m' => .ok (.error error) m' := by
  rw [attempt, run_tryCatch]
  simp only [EStateM.run, Functor.map, EStateM.map]
  cases action m <;> rfl

/-- **The rule for a loop.**  `invariant` speaks of the elements that are left. -/
theorem Ends.forM {action : β → EStateM ε σ PUnit} (invariant : List β → σ → Prop)
    (failed : ε → σ → Prop)
    (step : ∀ x rest m, invariant (x :: rest) m →
      Ends (action x) m (fun _ m' => invariant rest m') failed)
    {xs : List β} {m : σ} (start : invariant xs m) :
    Ends (xs.forM action) m (fun _ m' => invariant [] m') failed := by
  induction xs generalizing m with
  | nil => exact start
  | cons x rest ih =>
    rw [List.forM, ends_bind]
    exact (step x rest m start).mono (fun _ _ => ih) fun _ _ h => h

/-- The rule for a loop that computes a value. -/
theorem Ends.foldlM {action : α → β → EStateM ε σ α} (invariant : List β → α → σ → Prop)
    (failed : ε → σ → Prop)
    (step : ∀ x rest value m, invariant (x :: rest) value m →
      Ends (action value x) m (fun value' m' => invariant rest value' m') failed)
    {xs : List β} {value : α} {m : σ} (start : invariant xs value m) :
    Ends (xs.foldlM action value) m (fun value' m' => invariant [] value' m') failed := by
  induction xs generalizing value m with
  | nil => exact start
  | cons x rest ih =>
    rw [List.foldlM_cons, ends_bind]
    exact (step x rest value m start).mono (fun _ _ => ih) fun _ _ h => h

/-- The rule for a loop that lists values. -/
theorem Ends.mapM {action : β → EStateM ε σ α} (invariant : List β → σ → Prop)
    (failed : ε → σ → Prop)
    (step : ∀ x rest m, invariant (x :: rest) m →
      Ends (action x) m (fun _ m' => invariant rest m') failed)
    {xs : List β} {m : σ} (start : invariant xs m) :
    Ends (xs.mapM action) m (fun _ m' => invariant [] m') failed := by
  induction xs generalizing m with
  | nil => exact start
  | cons x rest ih =>
    rw [List.mapM_cons, ends_bind]
    refine (step x rest m start).mono (fun _ m' h => ?_) fun _ _ h => h
    rw [ends_bind]
    exact (ih h).mono (fun _ _ h => h) fun _ _ h => h

section Model

variable {m : Model} {done : α → Model → Prop} {failed : BuildError → Model → Prop}

@[simp] theorem ends_note {entry : LogEntry} {done : Unit → Model → Prop} :
    Ends (note entry) m done failed ↔ done () { m with log := m.log ++ [entry] } := Iff.rfl

@[simp] theorem ends_warn {code message subject : String} {done : Unit → Model → Prop} :
    Ends (warn code message subject) m done failed ↔
      done () { m with log := m.log ++ [.warning ⟨code, message, subject⟩] } := Iff.rfl

@[simp] theorem ends_modifyClass {id : ClassId} {change : Class → Class}
    {done : Unit → Model → Prop} :
    Ends (modifyClass id change) m done failed ↔ done () (m.modifyClass id change) := Iff.rfl

/-- A reading has its value, or its fault is the error. -/
theorem ends_ofReading {reading : Except ShapeFault α} :
    Ends (ofReading reading) m done failed ↔
      (∀ value, reading = .ok value → done value m) ∧
        ∀ fault, reading = .error fault → failed (.shape fault) m := by
  cases reading <;> simp [ofReading]

theorem ends_orFault {fault : ShapeFault} {value? : Option α} :
    Ends (orFault fault value?) m done failed ↔
      (∀ value, value? = some value → done value m) ∧
        (value? = none → failed (.shape fault) m) := by
  cases value? <;> simp [orFault]

end Model

end Build
end AmbientDecl
