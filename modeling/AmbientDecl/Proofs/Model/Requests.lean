/- # Requests and the cycles that they report

Classes are asked for in any order and as often as one likes, one at a time or several at once
(`Request`).  A sequence of requests stops at the first one that fails.  In a well-typed model
nothing stops it but cyclic inheritance, and then the report is true of the records
(`first_error_isCycle`): the classes that it shows form a walk along names that comes back to its
start, meets no other class twice and ends with an `extends` link.

The walk need not begin with a class that was asked for, and its other steps may be `uses` links:
it is the part of the stack from the class on that was reached again.
-/

import AmbientDecl.Proofs.Model.Cycles

namespace AmbientDecl

/-- A request to resolve classes. -/
inductive Request where
  | one (id : ClassId)
  | several (ids : List ClassId)

namespace Request

/-- The classes that a request asks for. -/
def classes : Request → List ClassId
  | one id => [id]
  | several ids => ids

/-- What is done for a request. -/
def action : Request → Build Unit
  | one id => Build.resolve id
  | several ids => Build.resolveAll ids

/-- All classes that a request asks for are registered. -/
def Fits (request : Request) (m : Model) : Prop :=
  ∀ id ∈ request.classes, id < m.classes.length

instance (request : Request) (m : Model) : Decidable (request.Fits m) :=
  inferInstanceAs (Decidable (∀ _ ∈ _, _))

end Request

namespace Model

open Build

variable {m m₀ : Model} {error : BuildError} {requests : List Request}

/-- A walk along the names of the records that comes back to the class with which it starts, meets
no class twice before and ends with an `extends` link. -/
structure IsCycle (m : Model) (walk : List ClassId) : Prop where
  length : 2 ≤ walk.length
  closed : walk.head? = walk.getLast?
  distinct : walk.dropLast.Nodup
  named : walk.IsChain m.Names
  closing : ∃ before last first, walk = before ++ [last, first] ∧ m.Extends last first

/-- The error for a loop in a clean run shows a cycle. -/
theorem Loop.exists_isCycle (h : m₀.Loop True error) :
    ∃ walk, m₀.IsCycle walk ∧ error = .cycle (walk.map m₀.fullName) := by
  cases h with
  | @intro first rest nodup chain closing =>
    obtain ⟨last, found⟩ : ∃ last, (first :: rest).getLast? = some last :=
      ⟨_, List.getLast?_eq_some_getLast (List.cons_ne_nil first rest)⟩
    obtain ⟨before, split⟩ := List.getLast?_eq_some_iff.1 found
    refine ⟨first :: rest ++ [first], ⟨?_, ?_, ?_, chain, ?_⟩, rfl⟩
    · rw [List.length_append, List.length_cons, List.length_singleton]
      omega
    · rw [List.getLast?_concat, List.cons_append, List.head?_cons]
    · rwa [List.dropLast_concat]
    · refine ⟨before, last, first, ?_, closing trivial last found⟩
      rw [split, List.append_assoc, List.singleton_append]

/-- A request resolves the classes that it asks for, or it shows a loop. -/
theorem ends_request (unlinked : m₀.Unlinked) (typed : m₀.WellTyped) {request : Request}
    (steady : Steady m₀ True [] m) (fits : request.Fits m₀) :
    Ends request.action m (fun _ m' => Steady m₀ True [] m' ∧ m.Advances m' ∧
      ∀ id ∈ request.classes, m'.IsResolved id) fun error _ => m₀.Loop True error := by
  have explained : ∀ error m', FailsOn m₀ True [] error m' → m₀.Loop True error := by
    rintro error m' ⟨-, -, loop | ⟨id, stops⟩⟩
    · exact loop
    · exact absurd stops (typed.not_stops id error)
  have registered : ∀ id ∈ request.classes, id < m.classes.length := fun id mem => by
    rw [length_classes_of_outline_eq steady.outline]
    exact fits id mem
  cases request with
  | one id =>
    refine (ends_resolve_steady unlinked steady (registered id (List.mem_singleton.2 rfl))).mono
      (fun _ m' h => ⟨h.1, h.2.1, fun k mem => ?_⟩) explained
    exact List.mem_singleton.1 mem ▸ h.2.2.1
  | several ids =>
    exact (ends_resolveAll_steady unlinked steady registered).mono (fun _ _ h => h) explained

/-- A sequence of requests resolves all classes that they ask for, or it shows a loop. -/
theorem ends_requests (unlinked : m₀.Unlinked) (typed : m₀.WellTyped)
    (fits : ∀ request ∈ requests, request.Fits m₀) :
    Ends (requests.forM Request.action) m₀ (fun _ m => Steady m₀ True [] m ∧
      ∀ request ∈ requests, ∀ id ∈ request.classes, m.IsResolved id)
      fun error _ => m₀.Loop True error := by
  have start : Steady m₀ True [] m₀ := .of_unlinked unlinked
  -- the requests that are done have resolved their classes
  refine (Ends.forM
    (fun rest m => Steady m₀ True [] m ∧ ∃ done, done ++ rest = requests ∧
      ∀ request ∈ done, ∀ id ∈ request.classes, m.IsResolved id)
    (fun error _ => m₀.Loop True error) ?_ ⟨start, [], rfl, by simp⟩).mono ?_ fun _ _ h => h
  · rintro request rest m ⟨steady, done, all, resolved⟩
    have fits' := fits request (by simp [← all])
    refine (ends_request unlinked typed steady fits').mono ?_ fun _ _ h => h
    rintro - m' ⟨steady', advances, resolved'⟩
    refine ⟨steady', done ++ [request], by simp [← all], fun other mem id asked => ?_⟩
    rcases List.mem_append.1 mem with mem | mem
    · exact advances.isResolved (resolved other mem id asked)
    · obtain rfl := List.mem_singleton.1 mem
      exact resolved' id asked
  · rintro - m ⟨steady, done, all, resolved⟩
    rw [List.append_nil] at all
    exact ⟨steady, all ▸ resolved⟩

/-- **The report of cyclic inheritance shows a cycle.**  Take the classes of a document with
well-typed records and any sequence of requests for them.  If the sequence stops, the error that
stops it is a report of cyclic inheritance, and it lists the full names of the classes of a cycle:
each class of the walk extends or uses the next one, no class comes twice but the first one, which
is also the last one, and the last step is an `extends` link. -/
theorem first_error_isCycle {settings : Settings} {document : Document}
    (assembled : (assemble document).run (empty settings) = .ok () m₀) (typed : m₀.WellTyped)
    (fits : ∀ request ∈ requests, request.Fits m₀)
    (stopped : (requests.forM Request.action).run m₀ = .error error m) :
    ∃ walk, m₀.IsCycle walk ∧ error = .cycle (walk.map m₀.fullName) := by
  have unlinked := (ends_assemble (unlinked_empty settings) document).of_ok assembled
  have loop := (ends_requests unlinked typed fits).of_error stopped
  exact loop.exists_isCycle

/-- The class `A` uses `B`, which uses `C`, and `C` extends `B`. -/
def innerCycle : Document := .ofFields [
  ("classes", .obj [
    ("A", .obj [("uses", .arr [.str "B"])]),
    ("B", .obj [("uses", .arr [.str "C"])]),
    ("C", .obj [("extends", .str "B")]),
    ("P", .obj [])])]

/-- The model for the inner cycle before any class is resolved. -/
def innerStart : Model := after (assemble innerCycle) (empty .blank)

/-- The request for `P` ends well.  The one for all classes enters the cycle from `A`, which does
not lie on it: the report begins and ends with `B`. -/
theorem isCycle_innerCycle : ∃ walk, innerStart.IsCycle walk ∧
    walk.map innerStart.fullName = ["B", "C", "B"] := by
  have assembled : (assemble innerCycle).run (empty .blank) = .ok () innerStart :=
    run_of_succeeds (by decide +kernel)
  have typed : innerStart.WellTyped := ⟨by decide +kernel, by decide +kernel⟩
  have fits : ∀ request ∈ [Request.one 3, .several [0, 1, 2, 3]], request.Fits innerStart := by
    decide +kernel
  have stopped : ([Request.one 3, .several [0, 1, 2, 3]].forM Request.action).run innerStart =
      .error (.cycle ["B", "C", "B"])
        (after ([Request.one 3, .several [0, 1, 2, 3]].forM Request.action) innerStart) := rfl
  obtain ⟨walk, cycle, shown⟩ := first_error_isCycle assembled typed fits stopped
  exact ⟨walk, cycle, (BuildError.cycle.inj shown).symm⟩

end Model
end AmbientDecl
