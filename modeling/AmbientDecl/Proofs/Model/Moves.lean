/- # How classes move

From one moment of a run to the next at most one class moves, by one of three steps
(`Progress.Step`); a resolved class never moves again.  At every moment that is noted of a call of
the resolver a class is being resolved just when it is on the stack, and no class is on the stack
twice, so that the stack never holds more classes than there are (`Moment.Orderly`).

A run is **in order** when all that was noted of it is, and **current** when no class has moved
since.  Noting a moment makes a run current, quiet actions keep it so, and the two moves of the
resolver, when a class enters the stack and when it leaves it, keep it in order.
-/

import AmbientDecl.Proofs.Model.Quiet
import AmbientDecl.Proofs.Model.Watched
import Mathlib.Data.List.Chain

namespace AmbientDecl

/-- A class begins to be resolved, is resolved, or is taken back. -/
inductive Progress.Step : Progress → Progress → Prop where
  | enter : Step .unresolved .resolving
  | finish : Step .resolving .resolved
  | takeBack : Step .resolving .unresolved

namespace Model

/-- At most one class moves, and it moves by one step. -/
def Moves (m m' : Model) : Prop :=
  m.SameProgress m' ∨
    ∃ id, Progress.Step (m.classAt id).progress (m'.classAt id).progress ∧
      ∀ k, k ≠ id → (m'.classAt k).progress = (m.classAt k).progress

variable {m m' m'' : Model} {id : ClassId}

theorem Moves.trans_same (h : m.Moves m') (same : m'.SameProgress m'') : m.Moves m'' := by
  rcases h with h | ⟨id, step, others⟩
  · exact .inl (h.trans same)
  · refine .inr ⟨id, by rwa [same id], fun k ne => ?_⟩
    rw [same k, others k ne]

theorem SameProgress.trans_moves (same : m.SameProgress m') (h : m'.Moves m'') : m.Moves m'' := by
  rcases h with h | ⟨id, step, others⟩
  · exact .inl (same.trans h)
  · refine .inr ⟨id, by rwa [← same id], fun k ne => ?_⟩
    rw [others k ne, same k]

end Model

/-- What holds at every moment of a call. -/
structure Moment.Orderly (x : Moment) : Prop where
  resolving : ∀ k, x.model.IsResolving k ↔ k ∈ x.stack
  nodup : x.stack.Nodup
  depth : x.stack.length ≤ x.model.classes.length
  /-- No class is found abandoned. -/
  found : x.event ≠ .raised .abandonedClass

namespace Watched

open Model

variable {first : Model} {n : Nat} {stack : List ClassId} {w w' w'' : Watched} {m : Model}
  {id : ClassId}

/-- The models of a run so far: the first one and those of the moments noted. -/
def history (first : Model) (w : Watched) : List Model :=
  first :: w.moments.map Moment.model

theorem history_note (first m : Model) (w : Watched) (x : Moment) :
    history first ⟨m, w.stack, w.moments ++ [x]⟩ = w.history first ++ [x.model] := by
  simp [history]

/-- A run in order, with `n` classes of which those on `stack` are being resolved. -/
structure InOrder (first : Model) (n : Nat) (stack : List ClassId) (w : Watched) : Prop where
  same : w.stack = stack
  length : w.model.classes.length = n
  resolving : ∀ k, w.model.IsResolving k ↔ k ∈ stack
  nodup : stack.Nodup
  links : ∀ id k, .linked k ∈ (w.model.classAt id).implemented → k < n
  orderly : ∀ x ∈ w.moments, x.Orderly
  moves : (w.history first).IsChain Moves
  latest : ∀ m ∈ (w.history first).getLast?, m.Moves w.model

/-- No class has moved since the last moment that was noted. -/
structure Current (first : Model) (n : Nat) (stack : List ClassId) (w : Watched) : Prop extends
    InOrder first n stack w where
  current : ∀ m ∈ (w.history first).getLast?, m.SameProgress w.model

/-- All moments noted from `w` to `w'` have a property. -/
def Adds (holds : Moment → Prop) (w w' : Watched) : Prop :=
  ∃ new, w'.moments = w.moments ++ new ∧ ∀ x ∈ new, holds x

variable {holds holds' : Moment → Prop}

theorem Adds.of_eq (same : w'.moments = w.moments) : Adds holds w w' :=
  ⟨[], by rw [same, List.append_nil], fun _ mem => absurd mem List.not_mem_nil⟩

theorem Adds.note {x : Moment} (noted : w'.moments = w.moments ++ [x]) (h : holds x) :
    Adds holds w w' :=
  ⟨[x], noted, fun _ mem => List.mem_singleton.1 mem ▸ h⟩

theorem Adds.trans (h : Adds holds w w') (h' : Adds holds w' w'') : Adds holds w w'' := by
  obtain ⟨new, noted, all⟩ := h
  obtain ⟨new', noted', all'⟩ := h'
  refine ⟨new ++ new', by rw [noted', noted, List.append_assoc], fun x mem => ?_⟩
  rcases List.mem_append.1 mem with mem | mem
  · exact all x mem
  · exact all' x mem

/-- The stack never holds more classes than there are. -/
theorem InOrder.depth (h : InOrder first n stack w) : stack.length ≤ n := by
  have subset : stack ⊆ List.range n := by
    intro k mem
    have resolving := (h.resolving k).2 mem
    rw [List.mem_range, ← h.length]
    exact resolving.lt
  simpa using h.nodup.length_le_of_subset subset

/-- A step that moves no class keeps a run in order. -/
theorem Current.idle (h : Current first n stack w) (idle : w.model.Idle m) :
    Current first m.classes.length stack { w with model := m } where
  same := h.same
  length := rfl
  resolving k := (idle.progress.isResolving_iff k).trans (h.resolving k)
  nodup := h.nodup
  links id k link := by
    have registered := idle.registered
    rcases idle.links id k link with before | known
    · have := h.links id k before
      have := h.length
      omega
    · exact Nat.lt_of_lt_of_le known registered
  orderly := h.orderly
  moves := h.moves
  latest m' mem := (h.latest m' mem).trans_same idle.progress
  current m' mem := (h.current m' mem).trans idle.progress

theorem Current.still (h : Current first n stack w) (still : w.model.Still m) :
    Current first n stack { w with model := m } := by
  have kept := h.idle still.toIdle
  rwa [still.length, h.length] at kept

/-- The moment that is noted of a run in order is orderly. -/
theorem InOrder.note (h : InOrder first n stack w) {event : Event}
    (found : event ≠ .raised .abandonedClass) :
    Current first n stack { w with moments := w.moments ++ [⟨event, id, w.stack, w.model⟩] } := by
  have last : ∀ m' ∈ (w.history first ++ [w.model]).getLast?, m' = w.model := by
    intro m' mem
    rw [List.getLast?_concat, Option.mem_some_iff] at mem
    exact mem.symm
  refine ⟨⟨h.same, h.length, h.resolving, h.nodup, h.links, fun x mem => ?_, ?_, ?_⟩, ?_⟩
  · rcases List.mem_append.1 mem with mem | mem
    · exact h.orderly x mem
    · rw [List.mem_singleton.1 mem]
      refine ⟨fun k => ?_, ?_, ?_, found⟩
      · rw [h.same]
        exact h.resolving k
      · rw [h.same]
        exact h.nodup
      · rw [h.same, h.length]
        exact h.depth
  · rw [history_note]
    refine List.isChain_append.2 ⟨h.moves, List.isChain_singleton _, fun m' mem m'' mem' => ?_⟩
    rw [List.head?_cons, Option.mem_some_iff] at mem'
    exact mem' ▸ h.latest m' mem
  · intro m' mem
    rw [history_note] at mem
    exact last m' mem ▸ .inl (.refl _)
  · intro m' mem
    rw [history_note] at mem
    exact last m' mem ▸ .refl _

/-- Setting the progress of a class is a move of this class alone. -/
theorem moves_setProgress (registered : id < m.classes.length) {progress : Progress}
    (step : Progress.Step (m.classAt id).progress progress) :
    m.Moves (m.modifyClass id ({ · with progress })) := by
  have sets := setsProgress_modifyClass registered progress
  refine .inr ⟨id, ?_, fun k ne => by rw [sets.others k ne]⟩
  rw [sets.self]
  exact step

/-- Setting the progress of a class touches no link. -/
theorem links_setProgress (registered : id < m.classes.length) (progress : Progress)
    (links : ∀ other k, .linked k ∈ (m.classAt other).implemented → k < n) (other k : ClassId) :
    .linked k ∈ ((m.modifyClass id ({ · with progress })).classAt other).implemented → k < n := by
  have sets := setsProgress_modifyClass registered progress
  by_cases ne : other = id
  · rw [ne, sets.self]
    exact links id k
  · rw [sets.others other ne]
    exact links other k

/-- A new class is put on the stack. -/
theorem Current.enter (h : Current first n stack w) (registered : id < n)
    (new : w.model.IsUnresolved id) :
    InOrder first n (stack ++ [id])
      ⟨w.model.modifyClass id ({ · with progress := .resolving }), w.stack ++ [id], w.moments⟩ := by
  rw [← h.length] at registered
  have enters := setsProgress_modifyClass registered .resolving
  have step : w.model.Moves (w.model.modifyClass id ({ · with progress := .resolving })) :=
    moves_setProgress registered (new ▸ .enter)
  exact {
    same := by rw [h.same]
    length := (length_classes_modifyClass _ _ _).trans h.length
    resolving := enters.isResolving_push h.resolving
    nodup := new.nodup_push h.resolving h.nodup
    links := links_setProgress registered _ h.links
    orderly := h.orderly
    moves := h.moves
    latest := fun m mem => (h.current m mem).trans_moves step }

/-- A class leaves the stack and makes a step. -/
theorem Current.leave (h : Current first n (stack ++ [id]) w) {progress : Progress}
    (step : Progress.Step .resolving progress) :
    InOrder first n stack
      ⟨w.model.modifyClass id ({ · with progress }), w.stack.dropLast, w.moments⟩ := by
  have resolving : w.model.IsResolving id := (h.resolving id).2 (by simp)
  have registered : id < w.model.classes.length := resolving.lt
  have idle : progress ≠ .resolving := by cases step <;> simp
  have leaves := setsProgress_modifyClass registered progress
  have step : w.model.Moves (w.model.modifyClass id ({ · with progress })) :=
    moves_setProgress registered (resolving ▸ step)
  exact {
    same := by rw [h.same, List.dropLast_concat]
    length := (length_classes_modifyClass _ _ _).trans h.length
    resolving := leaves.isResolving_pop h.resolving h.nodup idle
    nodup := (List.nodup_append.1 h.nodup).1
    links := links_setProgress registered _ h.links
    orderly := h.orderly
    moves := h.moves
    latest := fun m mem => (h.current m mem).trans_moves step }

end Watched

end AmbientDecl
