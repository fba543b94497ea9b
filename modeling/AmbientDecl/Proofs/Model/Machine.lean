/- # The state machine of the resolver

A run starts without classes and goes on by calls from outside: classes are registered, items are
attached, and classes are resolved, in any order.  A call may fail with a finding, and the run goes
on; after a value of the wrong type it does not.

The order of `AmbientDecl.Proofs.Model.Moves` holds all along such a run (`Run.machine`), between
the calls from outside and at the beginning and at the end of every call of the resolver.  Each
call ends as the resolver ends without a watcher, for any larger bound on the recursion too, and
finds no class abandoned.
-/

import AmbientDecl.Proofs.Model.Calls
import AmbientDecl.Proofs.Model.Room

namespace AmbientDecl

/-- A call from outside. -/
inductive Command where
  | register (key : String) (record? : Option ClassRecord)
  | attach (entry : ItemEntry)
  | resolve (id : ClassId)
  | resolveAll (ids : List ClassId)

namespace Command

/-- Only classes that are registered can be resolved. -/
def Fits (m : Model) : Command → Prop
  | register _ _ => True
  | attach _ => True
  | resolve id => id < m.classes.length
  | resolveAll ids => ∀ id ∈ ids, id < m.classes.length

/-- What a call does. -/
def action : Command → Build Unit
  | register key record? => discard (Build.register key record?)
  | attach entry => discard (Build.attach entry)
  | resolve id => Build.resolve id
  | resolveAll ids => Build.resolveAll ids

/-- A call under watch. -/
def watched : Command → Watching Unit
  | register key record? => Watching.act (discard (Build.register key record?))
  | attach entry => Watching.act (discard (Build.attach entry))
  | resolve id => Watching.resolve id
  | resolveAll ids => Watching.resolveAll ids

/-- The state in which a run goes on after a call. -/
def next (command : Command) (w : Watched) : Option Watched :=
  match command.watched.run w with
  | .ok _ w' => some w'
  | .error error w' => if error.isFinding then some w' else none

end Command

namespace Watched

open Build (Ends ends_of ends_discard)
open Model Watching

/-- A run before the first call. -/
def start (settings : Settings) : Watched := ⟨.empty settings, [], []⟩

/-- The states of a run between the calls from outside. -/
inductive Run (settings : Settings) : Watched → Prop where
  | start : Run settings (start settings)
  | call {w w' : Watched} (run : Run settings w) (command : Command)
      (fits : command.Fits w.model) (goesOn : command.next w = some w') : Run settings w'

variable {settings : Settings} {first : Model} {n : Nat} {w w' : Watched} {command : Command}

theorem follows_watched (command : Command) : Follows [] command.watched command.action := by
  cases command with
  | register key record? => exact .act _
  | attach entry => exact .act _
  | resolve id => exact follows_resolve id
  | resolveAll ids => exact follows_resolveAll ids

/-- A run that is in order between two calls, whatever the number of classes. -/
def Rests (first : Model) (w : Watched) : Prop := Current first w.model.classes.length [] w

theorem rests_start (settings : Settings) : Rests (.empty settings) (start settings) := by
  have idle : ∀ k, ¬ (Model.empty settings).IsResolving k := fun k resolving => by
    cases resolving.lt
  have same : ∀ m ∈ ((start settings).history (.empty settings)).getLast?,
      m.SameProgress (start settings).model := by
    intro m mem
    rw [history, start, List.map_nil, List.getLast?_singleton, Option.mem_some_iff] at mem
    exact mem ▸ .refl _
  refine ⟨⟨rfl, rfl, fun k => ?_, List.nodup_nil, ?_, ?_, List.isChain_singleton _, ?_⟩, same⟩
  · exact ⟨fun resolving => absurd resolving (idle k), fun mem => absurd mem List.not_mem_nil⟩
  · intro id k link
    exact absurd link List.not_mem_nil
  · exact fun x mem => absurd mem List.not_mem_nil
  · exact fun m mem => .inl (same m mem)

/-- Calls of the resolver keep a run in order. -/
theorem goes_of_keeps {watched : Watching Unit} (rests : Rests first w)
    (keeps : Keeps first w.model.classes.length [] watched) :
    Goes (Rests first) (fun _ _ => False) [] watched w := by
  have relax : ∀ w', Current first w.model.classes.length [] w' → Rests first w' := by
    intro w' current
    unfold Rests
    rw [current.length]
    exact current
  refine (keeps w rests).mono (fun _ w' ⟨current, calm⟩ => ⟨relax w' current, calm⟩) ?_
  rintro error w' ⟨named, failed⟩
  exact ⟨named, fun finding => ⟨relax w' (failed finding).1, (failed finding).2⟩⟩

/-- Calls that move no class keep a run in order. -/
theorem goes_act {α : Type} {action : Build α} (rests : Rests first w)
    (idle : Ends action w.model (fun _ m => w.model.Idle m) fun error m =>
      w.model.Idle m ∧ error.isOfProgress = false) :
    Goes (Rests first) (fun _ _ => False) [] (act (discard action)) w := by
  unfold Goes
  rw [ends_act, ends_discard]
  refine idle.mono (fun _ m still => ?_) fun error m ⟨still, other⟩ => ⟨?_, fun _ => ?_⟩
  · exact ⟨rests.idle still, .of_eq rfl⟩
  · rintro rfl
    cases other
  · exact ⟨rests.idle still, .of_eq rfl fun cycle => by rw [other] at cycle; cases cycle⟩

/-- **Every call from outside keeps a run in order.** -/
theorem goes_command (rests : Rests first w) (fits : command.Fits w.model) :
    Goes (Rests first) (fun _ _ => False) [] command.watched w := by
  cases command with
  | register key record? => exact goes_act rests (Build.ends_register_idle key record? w.model)
  | attach entry =>
    refine goes_act rests ((Build.quiet_attach entry w.model).mono ?_ ?_)
    · exact fun _ _ still => still.toIdle
    · exact fun _ _ ⟨still, other⟩ => ⟨still.toIdle, other⟩
  | resolve id => exact goes_of_keeps rests (keeps_resolve fits)
  | resolveAll ids => exact goes_of_keeps rests (keeps_resolveAll fits)

theorem Run.rests (run : w.Run settings) : Rests (.empty settings) w := by
  induction run with
  | start => exact rests_start settings
  | call run command fits goesOn ih =>
    have goes := goes_command ih fits
    unfold Command.next at goesOn
    split at goesOn
    · rename_i ended
      obtain rfl := Option.some.inj goesOn
      exact (goes.of_ok ended).1
    · rename_i error w' ended
      split at goesOn
      · rename_i finding
        obtain rfl := Option.some.inj goesOn
        exact ((goes.of_error ended).2 finding).1
      · cases goesOn

/-- What the notes of a call show is what the call does. -/
theorem Rests.ends_command (rests : Rests first w) (fits : command.Fits w.model) :
    Ends command.watched w
      (fun _ w' => (Rests first w' ∧ Calm w w') ∧
        command.action.run w.model = .ok () w'.model ∧ w'.stack = [])
      fun error w' => (error ≠ .abandonedClass ∧
        (error.isFinding = true → Rests first w' ∧ FailsBy False [] error w w')) ∧
        command.action.run w.model = .error error w'.model ∧ w'.stack = [] := by
  refine ((goes_command rests fits).and (follows_watched command w rests.same)).mono ?_ ?_
  · rintro _ w' ⟨goes, same, run⟩
    exact ⟨goes, run, same⟩
  · rintro error w' ⟨goes, same, run⟩
    exact ⟨goes, run, same⟩

/-- A call of the resolver in a run does not depend on the bound on its recursion. -/
theorem Rests.run_resolveWithin (rests : Rests first w) {id : ClassId}
    (registered : id < w.model.classes.length) {room : Nat}
    (large : w.model.classes.length < room) :
    (Build.resolveWithin room [] id).run w.model = (Build.resolve id).run w.model := by
  have agrees : Build.Agrees (Build.resolveWithin room [] id)
      (Build.resolveWithin (w.model.classes.length + 1) [] id) := Build.agrees_resolveWithin large
  have same : (Build.resolve id).run w.model =
      (Build.resolveWithin (w.model.classes.length + 1) [] id).run w.model := rfl
  have fits : (Command.resolve id).Fits w.model := registered
  have ended := rests.ends_command fits
  cases watched : (Command.resolve id).watched.run w with
  | ok value w' =>
    have run := (ended.of_ok watched).2.1
    exact ((agrees w.model).of_ok (same ▸ run)).trans run.symm
  | error error w' =>
    obtain ⟨⟨named, -⟩, run, -⟩ := ended.of_error watched
    exact ((agrees w.model).of_error (same ▸ run) named).trans run.symm

/-- **The state machine of the resolver.**  Between the calls from outside the stack is empty and
no class is being resolved.  At each moment noted of a call, nested or not, the classes that are
being resolved are those on the stack, and from moment to moment at most one class moves.  A call
from outside ends as it does without a watcher.  Its error never is that a class was found
abandoned, all classes that were on the stack when a finding was raised are unresolved again, and
a cycle is found at a class on the stack.  The bound on the recursion plays no part. -/
theorem Run.machine (run : w.Run settings) :
    (w.stack = [] ∧ ∀ k, ¬ w.model.IsResolving k) ∧
      (∀ x ∈ w.moments, x.Orderly) ∧
      (w.history (.empty settings) ++ [w.model]).IsChain Moves ∧
      (∀ command : Command, command.Fits w.model → Ends command.watched w
        (fun _ w' => command.action.run w.model = .ok () w'.model ∧ w'.stack = [])
        fun error w' => command.action.run w.model = .error error w'.model ∧ w'.stack = [] ∧
          error ≠ .abandonedClass ∧ (error.isFinding = true →
            ∃ new, w'.moments = w.moments ++ new ∧
              (∀ x ∈ new, x.IsRaised → ∀ k ∈ x.stack, w'.model.IsUnresolved k) ∧
              ∀ chain, error = .cycle chain →
                ∃ x ∈ new, x.event = .raised error ∧ x.ClosesCycle error)) ∧
      ∀ id < w.model.classes.length, ∀ room > w.model.classes.length,
        (Build.resolveWithin room [] id).run w.model = (Build.resolve id).run w.model := by
  have rests := run.rests
  refine ⟨⟨rests.same, fun k resolving => ?_⟩, rests.orderly, ?_, fun command fits => ?_, ?_⟩
  · exact absurd ((rests.resolving k).1 resolving) List.not_mem_nil
  · refine List.isChain_append.2 ⟨rests.moves, List.isChain_singleton _, fun m mem m' mem' => ?_⟩
    rw [List.head?_cons, Option.mem_some_iff] at mem'
    exact mem' ▸ rests.latest m mem
  · refine (rests.ends_command fits).mono (fun _ w' ended => ended.2) fun error w' ended => ?_
    obtain ⟨⟨named, failed⟩, run', same⟩ := ended
    refine ⟨run', same, named, fun finding => ?_⟩
    obtain ⟨-, new, noted, back, found⟩ := failed finding
    refine ⟨new, noted, fun x mem raised k on => ?_, fun chain cycle => ?_⟩
    · exact (back x mem raised k on).resolve_left List.not_mem_nil
    · exact (found (by rw [cycle]; rfl)).resolve_left not_false
  · exact fun id registered room large => rests.run_resolveWithin registered large

/-- The class `A` extends `B`. -/
def registerChild : Command := .register "A" (some (.ofFields [("extends", .str "B")]))

/-- The class `B` extends `A`. -/
def registerParent : Command := .register "B" (some (.ofFields [("extends", .str "A")]))

/-- The state after the first class has been registered. -/
def childOnly : Watched := (registerChild.next (start .blank)).get (by decide +kernel)

/-- The state after both classes have been registered. -/
def cycleStart : Watched := (registerParent.next childOnly).get (by decide +kernel)

/-- The state after a call that resolves `A` has failed. -/
def cycleEnd : Watched := ((Command.resolve 0).next cycleStart).get (by decide +kernel)

/-- The call fails with two classes on the stack, and both are taken back. -/
theorem machine_twoCycle : cycleEnd.Run .blank ∧
    cycleEnd.moments.map Moment.stack = [[], [0], [0], [0, 1], [0, 1], [0, 1], [0], []] ∧
    cycleEnd.stack = [] ∧ (∀ k, ¬ cycleEnd.model.IsResolving k) ∧
    ∀ x ∈ cycleEnd.moments, x.Orderly := by
  have child : childOnly.Run .blank := .call .start registerChild trivial (Option.some_get _).symm
  have both : cycleStart.Run .blank := .call child registerParent trivial (Option.some_get _).symm
  have fits : (Command.resolve 0).Fits cycleStart.model := by
    unfold Command.Fits
    decide +kernel
  have run : cycleEnd.Run .blank := .call both (.resolve 0) fits (Option.some_get _).symm
  have noted : cycleEnd.moments.map Moment.stack =
      [[], [0], [0], [0, 1], [0, 1], [0, 1], [0], []] := by
    decide +kernel
  obtain ⟨⟨empty, idle⟩, orderly, -⟩ := run.machine
  exact ⟨run, noted, empty, idle, orderly⟩

end Watched
end AmbientDecl
