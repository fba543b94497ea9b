/- # Calls in order

An action **keeps the order** of a run when the run is in order again however the action ends
(`Keeps`).  Quiet actions do, and a call does when what it does for a new class does.
`keeps_resolveWithin` is the induction on the room that is left for the recursion.  There is always
room: the stack would have to hold more classes than are registered.

An error that passes through a call takes the class of the call back, so when it has left all
calls, the classes that were on the stack when it was raised are all unresolved again (`TakenBack`).
The error that a class was reached again is raised where it is on the stack (`ClosesCycle`).
-/

import AmbientDecl.Proofs.Model.Moves
import Mathlib.Data.List.TakeWhile

namespace AmbientDecl

/-- Whether a call ends with an error at a moment. -/
def Moment.IsRaised (x : Moment) : Prop := ∃ error, x.event = .raised error

/-- An error says that the class of a moment is on the stack already. -/
def Moment.ClosesCycle (error : BuildError) (x : Moment) : Prop :=
  x.id ∈ x.stack ∧
    error = .cycle ((x.stack.dropWhile (· ≠ x.id) ++ [x.id]).map x.model.fullName)

/-- Of a moment when a call ends with an error, the classes on the stack are still there or have
been taken back. -/
def Moment.TakenBack (stack : List ClassId) (m : Model) (x : Moment) : Prop :=
  x.IsRaised → ∀ k ∈ x.stack, k ∈ stack ∨ m.IsUnresolved k

namespace Watching

open Build (Ends ends_of ends_bind ends_get ends_modify ends_pure ends_throw ends_tryCatch Quiet)
open Model Watched

variable {α β : Type} {first : Model} {n : Nat} {stack : List ClassId} {w w' w'' : Watched}
  {id : ClassId} {error : BuildError} {late : Prop}

/-- What an error leaves that is a finding.  An error that a class was reached again has been noted
where this happened, or else `late` holds. -/
def FailsBy (late : Prop) (stack : List ClassId) (error : BuildError) (w w' : Watched) : Prop :=
  ∃ new, w'.moments = w.moments ++ new ∧ (∀ x ∈ new, x.TakenBack stack w'.model) ∧
    (error.isOfProgress = true → late ∨ ∃ x ∈ new, x.event = .raised error ∧ x.ClosesCycle error)

/-- No call ends with an error from one state to another. -/
abbrev Calm (w w' : Watched) : Prop := w.Adds (fun x => ¬ x.IsRaised) w'

theorem FailsBy.after_calm (h : FailsBy late stack error w' w'') (calm : Calm w w') :
    FailsBy late stack error w w'' := by
  obtain ⟨new, noted, back, found⟩ := h
  obtain ⟨before, noted', quiet⟩ := calm
  refine ⟨before ++ new, ?_, fun x mem => ?_, fun cycle => ?_⟩
  · rw [noted, noted', List.append_assoc]
  · rcases List.mem_append.1 mem with mem | mem
    · exact fun raised => absurd raised (quiet x mem)
    · exact back x mem
  · refine (found cycle).imp_right fun ⟨x, mem, raised⟩ => ⟨x, ?_, raised⟩
    exact List.mem_append_right _ mem

/-- An error that was not raised by any call. -/
theorem FailsBy.of_eq (same : w'.moments = w.moments) (h : error.isOfProgress = true → late) :
    FailsBy late stack error w w' := by
  refine ⟨[], ?_, fun x mem => absurd mem List.not_mem_nil, fun cycle => .inl (h cycle)⟩
  rw [same, List.append_nil]

/-- How a run goes on: `kept` holds in the end if no value has the wrong type, and no class is
found abandoned. -/
def Goes (kept : Watched → Prop) (late : BuildError → Watched → Prop) (stack : List ClassId)
    (action : Watching α) (w : Watched) : Prop :=
  Ends action w (fun _ w' => kept w' ∧ Calm w w') fun error w' =>
    error ≠ .abandonedClass ∧
      (error.isFinding = true → kept w' ∧ FailsBy (late error w') stack error w w')

/-- An action keeps a run in order. -/
def Keeps (first : Model) (n : Nat) (stack : List ClassId) (action : Watching α) : Prop :=
  ∀ w, Current first n stack w →
    Goes (Current first n stack) (fun _ _ => False) stack action w

/-- What a call does for its class keeps a run in order, but for the note of how it ends. -/
def KeepsWithin (first : Model) (n : Nat) (stack : List ClassId) (id : ClassId)
    (body : Watching Unit) (w : Watched) : Prop :=
  Goes (InOrder first n stack)
    (fun error w' => Moment.ClosesCycle error ⟨.raised error, id, w'.stack, w'.model⟩) stack body w

namespace Keeps

theorem pure (value : α) : Keeps first n stack (pure value : Watching α) :=
  fun _ h => ⟨h, .of_eq rfl⟩

theorem bind {action : Watching β} {next : β → Watching α} (h : Keeps first n stack action)
    (h' : ∀ value, Keeps first n stack (next value)) : Keeps first n stack (action >>= next) := by
  intro w current
  unfold Goes
  rw [ends_bind]
  refine (h w current).mono (fun value w₁ ⟨current₁, calm⟩ => ?_) fun _ _ failed => failed
  refine (h' value w₁ current₁).mono (fun _ w₂ ⟨current₂, calm'⟩ => ?_) fun error w₂ failed => ?_
  · exact ⟨current₂, calm.trans calm'⟩
  · refine ⟨failed.1, fun finding => ?_⟩
    obtain ⟨current₂, fails⟩ := failed.2 finding
    exact ⟨current₂, fails.after_calm calm⟩

/-- An action may look at the model. -/
theorem getting {next : Watched → Watching α}
    (h : ∀ w, Current first n stack w → Keeps first n stack (next w)) :
    Keeps first n stack (get >>= next) :=
  fun w current => h w current w current

theorem forM {action : β → Watching PUnit} {xs : List β}
    (h : ∀ x ∈ xs, Keeps first n stack (action x)) : Keeps first n stack (xs.forM action) := by
  induction xs with
  | nil => exact .pure _
  | cons x rest ih =>
    refine (h x List.mem_cons_self).bind fun _ => ih fun y mem => ?_
    exact h y (List.mem_cons_of_mem x mem)

/-- Quiet actions keep a run in order. -/
theorem act {action : Build α} (quiet : Quiet action) :
    Keeps first n stack (Watching.act action) := by
  intro w current
  unfold Goes
  rw [ends_act]
  refine (quiet w.model).mono (fun _ m still => ?_) fun error m ⟨still, other⟩ => ⟨?_, fun _ => ?_⟩
  · exact ⟨current.still still, .of_eq rfl⟩
  · rintro rfl
    cases other
  · exact ⟨current.still still, .of_eq rfl fun cycle => by rw [other] at cycle; cases cycle⟩

/-- What follows a reading may depend on what was read. -/
theorem reading {reading : Except ShapeFault β} {next : β → Watching α}
    (h : ∀ value, reading = .ok value → Keeps first n stack (next value)) :
    Keeps first n stack (Watching.act (Build.ofReading reading) >>= next) := by
  cases reading with
  | ok value => exact h value rfl
  | error fault => exact fun w current => ⟨by simp, fun finding => by cases finding⟩

/-- The notes of a call make up for the last step of what it does for its class. -/
theorem call {body : Watching Unit}
    (h : ∀ w, Current first n stack w → KeepsWithin first n stack id body w) :
    Keeps first n stack (Watching.call id body) := by
  intro w current
  unfold Goes Watching.call look
  rw [ends_bind, ends_modify, ends_bind, ends_tryCatch]
  generalize called : (⟨_, _, _⟩ : Watched) = w₀
  have current₀ : Current first n stack w₀ := called ▸ current.toInOrder.note (by simp)
  have calm : Calm w w₀ := by
    refine .note (by rw [← called]) ?_
    rintro ⟨error, raised⟩
    cases raised
  refine (h w₀ current₀).mono (fun _ w₁ ⟨kept, calm'⟩ => ?_) fun error w₁ failure => ?_
  · rw [ends_modify]
    refine ⟨kept.note (by simp), calm.trans (calm'.trans (.note rfl ?_))⟩
    rintro ⟨error, raised⟩
    cases raised
  · rw [ends_bind, ends_modify, ends_throw]
    obtain ⟨named, failed⟩ := failure
    refine ⟨named, fun finding => ?_⟩
    obtain ⟨kept, new, noted, back, found⟩ := failed finding
    refine ⟨kept.note (by simpa using named), FailsBy.after_calm ?_ calm⟩
    refine ⟨new ++ [⟨.raised error, id, w₁.stack, w₁.model⟩], ?_, fun x mem => ?_, fun cycle => ?_⟩
    · rw [← List.append_assoc, ← noted]
    · rcases List.mem_append.1 mem with mem | mem
      · exact back x mem
      · obtain rfl := List.mem_singleton.1 mem
        exact fun _ k on => .inl (kept.same ▸ on)
    · rcases found cycle with closes | ⟨x, mem, raised⟩
      · exact .inr ⟨_, List.mem_append_right _ (List.mem_singleton.2 rfl), rfl, closes⟩
      · exact .inr ⟨x, List.mem_append_left _ mem, raised⟩

end Keeps

/-- A class that leaves the stack by an error is taken back with those above it. -/
theorem takenBack_leave {m : Model} {x : Moment} (h : x.TakenBack (stack ++ [id]) m)
    (resolving : m.IsResolving id) :
    x.TakenBack stack (m.modifyClass id ({ · with progress := .unresolved })) := by
  intro raised k mem
  have leaves := setsProgress_modifyClass resolving.lt .unresolved
  by_cases same : k = id
  · right
    rw [same, IsUnresolved, leaves.self]
  · rcases h raised k mem with there | back
    · rw [List.mem_append, List.mem_singleton] at there
      exact .inl (there.resolve_right same)
    · right
      rwa [IsUnresolved, leaves.others k same]

/-- A new class is resolved in order when its linking keeps the order with the class on the
stack. -/
theorem keeps_resolveNew {body : Watching Unit} (current : Current first n stack w)
    (registered : id < n) (new : w.model.IsUnresolved id)
    (rule : Keeps first n (stack ++ [id]) body) :
    KeepsWithin first n stack id (resolveNew id body) w := by
  unfold KeepsWithin Goes resolveNew push look pop
  rw [ends_bind, ends_act]
  unfold Build.setProgress
  rw [Build.ends_modifyClass, ends_bind, ends_modify, ends_bind, ends_modify, ends_bind,
    ends_tryCatch]
  generalize entered : (⟨_, _, _⟩ : Watched) = w₁
  have current₁ : Current first n (stack ++ [id]) w₁ :=
    entered ▸ (current.enter registered new).note (by simp)
  have calm : Calm w w₁ := by
    refine .note (by rw [← entered]) ?_
    rintro ⟨error, raised⟩
    cases raised
  refine (rule w₁ current₁).mono (fun _ w₂ ⟨current₂, calm'⟩ => ?_) fun error w₂ failure => ?_
  · rw [ends_bind, ends_modify, ends_act, Build.ends_modifyClass]
    exact ⟨current₂.leave .finish, calm.trans calm'⟩
  · obtain ⟨named, failed⟩ := failure
    cases finding : error.isFinding with
    | false =>
      rw [if_neg Bool.false_ne_true, ends_bind, ends_modify, ends_throw]
      exact ⟨named, fun found => by rw [finding] at found; cases found⟩
    | true =>
      obtain ⟨current₂, noted⟩ := failed finding
      have resolving : w₂.model.IsResolving id := (current₂.resolving id).2 (by simp)
      rw [if_pos rfl, ends_bind, ends_act, Build.ends_modifyClass, ends_bind, ends_modify,
        ends_throw]
      refine ⟨named, fun _ => ⟨current₂.leave .takeBack, ?_⟩⟩
      obtain ⟨moments, noted, back, found⟩ := noted
      refine FailsBy.after_calm ⟨moments, noted, fun x mem => ?_, fun cycle => ?_⟩ calm
      · exact takenBack_leave (back x mem) resolving
      · exact .inr ((found cycle).resolve_left not_false)

/-- Reaching a class goes on in order when resolving a new one does. -/
theorem keeps_reach {whenNew : Watching Unit} (current : Current first n stack w)
    (h : w.model.IsUnresolved id → KeepsWithin first n stack id whenNew w) :
    KeepsWithin first n stack id (reach id whenNew) w := by
  unfold KeepsWithin Goes reach
  rw [ends_bind, ends_get]
  split
  · exact ⟨current.toInOrder, .of_eq rfl⟩
  · rename_i resolving
    have there : id ∈ w.stack := by
      rw [current.same]
      exact (current.resolving id).1 resolving
    rw [ends_act]
    unfold Build.throwCycle
    rw [ends_bind, ends_get]
    split
    · rename_i gone
      have := List.dropWhile_eq_nil_iff.1 gone id there
      simp at this
    · refine ⟨by simp, fun _ => ⟨current.toInOrder, .of_eq rfl fun _ => ⟨there, ?_⟩⟩⟩
      rw [List.map_append, List.map_singleton]
  · exact h ‹_›

/-- Linking a class keeps the order when the way to other classes does. -/
theorem keeps_link {enter : ClassId → Watching Unit}
    (rule : ∀ k < n, Keeps first n stack (enter k)) : Keeps first n stack (link id enter) := by
  refine .getting fun w current => ?_
  have started : Keeps first n stack (act (Build.modifyClass id fun c =>
      { c with isNamespace := w.model.tree.contains (Forest.path c.fullName) })) :=
    .act (.modifyClass id (fun _ => rfl) (fun _ => rfl) fun _ => rfl)
  refine started.bind fun _ => ?_
  have rest : Keeps first n stack (do
      let names ← act (Build.orFault .unfit (w.model.classAt id).record.usedNames?)
      act (names.forM (Build.linkMixin id))
      (((← get).model.classAt id).implemented.filterMap TypeRef.target?).forM fun mixin =>
        mergeMixin id mixin enter) := by
    refine (Keeps.act (.orFault _ _)).bind fun names => ?_
    refine (Keeps.act (.forM (Build.quiet_linkMixin id) names)).bind fun _ => ?_
    refine .getting fun w₁ current₁ => .forM fun mixin mem => ?_
    have registered := current₁.links id mixin (TypeRef.mem_filterMap_target?.1 mem)
    exact (rule mixin registered).bind fun _ => .act (Build.quiet_absorb id mixin)
  dsimp only
  cases (w.model.classAt id).record.parentName? with
  | none => exact rest
  | some parentName =>
    refine Keeps.bind (.getting fun w₁ current₁ => .reading fun found find => ?_) fun _ => rest
    cases found with
    | none => exact .act (.warn _ _ _)
    | some parent =>
      have registered : parent < n := by
        rw [← current₁.length]
        exact lt_of_found? (found?_of_find? find)
      exact (rule parent registered).bind fun _ => .act (Build.quiet_adopt id parent)

/-- **Resolving a class keeps a run in order.**  The room that is left for the recursion is never
used up: the stack and the room together outnumber the classes. -/
theorem keeps_resolveWithin (room : Nat) (space : n < stack.length + room) (registered : id < n) :
    Keeps first n stack (resolveWithin room id) := by
  induction room generalizing stack id with
  | zero =>
    intro w current
    have depth := current.depth
    omega
  | succ room ih =>
    refine .call fun w current => keeps_reach current fun new => ?_
    refine keeps_resolveNew current registered new (keeps_link fun k registered' => ?_)
    refine ih ?_ registered'
    rw [List.length_append, List.length_singleton]
    omega

theorem keeps_resolve (registered : id < n) : Keeps first n [] (resolve id) := by
  refine .getting fun w current => keeps_resolveWithin _ ?_ registered
  rw [current.length, List.length_nil]
  omega

theorem keeps_resolveAll {ids : List ClassId} (registered : ∀ id ∈ ids, id < n) :
    Keeps first n [] (resolveAll ids) :=
  .forM fun id mem => keeps_resolve (registered id mem)

end Watching
end AmbientDecl
