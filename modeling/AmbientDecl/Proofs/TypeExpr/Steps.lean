/- # Runs of the reader

The steps that the reader makes over tokens, as a relation.  A run over tokens that it can step
over goes on from the state that it comes to (`State.Steps.run_append`), and a run that ends well
has stepped over every token (`State.steps_of_run`).
-/

import AmbientDecl.TypeExpr.Reader

namespace AmbientDecl
namespace TypeExpr
namespace State

/-- The reader goes from one state to another over the tokens. -/
inductive Steps : State → List Token → State → Prop where
  | nil (state : State) : Steps state [] state
  | cons {state next last : State} {token : Token} {tokens : List Token}
      (first : step state token = .ok next) (rest : Steps next tokens last) :
      Steps state (token :: tokens) last

theorem Steps.append {state next last : State} {ts us : List Token} (h : Steps state ts next)
    (h' : Steps next us last) : Steps state (ts ++ us) last := by
  induction h with
  | nil => exact h'
  | cons first _ ih => exact .cons first (ih h')

theorem Steps.one {state next : State} {token : Token} (h : step state token = .ok next) :
    Steps state [token] next := .cons h (.nil next)

/-- The reader is a function, so it goes on from the one state that it comes to. -/
theorem Steps.split {state next last : State} {ts us : List Token} (h : Steps state ts next)
    (h' : Steps state (ts ++ us) last) : Steps next us last := by
  induction h with
  | nil => exact h'
  | cons first _ ih =>
    cases h' with
    | cons first' later =>
      rw [first] at first'
      cases first'
      exact ih later

theorem Steps.unique {state next last : State} {ts : List Token} (h : Steps state ts next)
    (h' : Steps state ts last) : next = last := by
  have nothing : Steps next [] last := h.split (by rwa [List.append_nil])
  cases nothing
  rfl

/-- The run over tokens that the reader takes in goes on from the state that it comes to. -/
theorem Steps.run_append {state next : State} {ts : List Token} (h : Steps state ts next)
    (rest : List Token) : run state (ts ++ rest) = run next rest := by
  induction h with
  | nil => rfl
  | cons first _ ih => simp only [List.cons_append, run, first, ih]

/-- What the end of the tokens gives is what the run gives. -/
theorem Steps.run {state next : State} {ts : List Token} {e : TypeExpr} (h : Steps state ts next)
    (ends : finish next = .ok e) : state.run ts = .ok e := by
  have split := h.run_append []
  rw [List.append_nil] at split
  rw [split, State.run, ends]
  rfl

/-- A run that ends well takes in every token. -/
theorem steps_of_run {state : State} {ts : List Token} {e : TypeExpr}
    (h : state.run ts = .ok e) : ∃ last, Steps state ts last ∧ finish last = .ok e := by
  induction ts generalizing state with
  | nil =>
    refine ⟨state, .nil state, ?_⟩
    rw [State.run] at h
    cases ends : finish state with
    | ok e' => rw [ends] at h; exact congrArg _ (Except.ok.inj h)
    | error fault => rw [ends] at h; exact absurd h nofun
  | cons token ts ih =>
    rw [State.run] at h
    cases first : step state token with
    | ok next =>
      rw [first] at h
      obtain ⟨last, rest, ends⟩ := ih h
      exact ⟨last, .cons first rest, ends⟩
    | error fault => rw [first] at h; exact absurd h nofun

/-- A finished expression stays as it is. -/
theorem steps_finished (e : TypeExpr) (ts : List Token) : Steps (finished e) ts (finished e) := by
  induction ts with
  | nil => exact .nil _
  | cons token ts ih => exact .cons rfl ih

end State
end TypeExpr
end AmbientDecl
