/- # Computations that may fail

How a computation in two steps has a value, and how steps that may fail go through a list.
-/

import AmbientDecl.Fault
import Mathlib.Data.List.Forall2

namespace AmbientDecl

theorem bind_ok {ε α β : Type} (value : α) (next : α → Except ε β) :
    (Except.ok value >>= next) = next value := rfl

/-- A computation in two steps has a value when both have one. -/
theorem bind_eq_ok {ε α β : Type} {first : Except ε α} {next : α → Except ε β} {value : β} :
    first >>= next = .ok value ↔ ∃ between, first = .ok between ∧ next between = .ok value := by
  cases first with
  | error error => simp [bind, Except.bind]
  | ok between => simp [bind, Except.bind]

@[simp] theorem mapError_eq_ok {ε ε' α : Type} {f : ε → ε'} {action : Except ε α} {value : α} :
    action.mapError f = .ok value ↔ action = .ok value := by
  cases action <;> simp [Except.mapError]

/-- A list has values when each of its elements has one. -/
theorem mapM_eq_ok_iff {ε α β : Type} {step : α → Except ε β} {xs : List α} {values : List β} :
    xs.mapM step = .ok values ↔ List.Forall₂ (fun x value => step x = .ok value) xs values := by
  induction xs generalizing values with
  | nil =>
    rw [List.forall₂_nil_left_iff, List.mapM_nil]
    exact ⟨fun h => (Except.ok.inj h).symm, fun h => congrArg Except.ok h.symm⟩
  | cons x rest ih =>
    rw [List.mapM_cons, bind_eq_ok, List.forall₂_cons_left_iff]
    constructor
    · rintro ⟨value, first, h⟩
      obtain ⟨others, after, same⟩ := bind_eq_ok.1 h
      exact ⟨value, others, first, ih.1 after, (Except.ok.inj same).symm⟩
    · rintro ⟨value, others, first, after, rfl⟩
      exact ⟨value, first, bind_eq_ok.2 ⟨others, ih.2 after, rfl⟩⟩

/-- Steps go through a list when they go through each of its elements. -/
theorem exists_mapM_iff {ε α β : Type} {step : α → Except ε β} {xs : List α} :
    (∃ values, xs.mapM step = .ok values) ↔ ∀ x ∈ xs, ∃ value, step x = .ok value := by
  induction xs with
  | nil => exact ⟨fun _ _ mem => absurd mem List.not_mem_nil, fun _ => ⟨[], rfl⟩⟩
  | cons x rest ih =>
    rw [List.forall_mem_cons, ← ih]
    simp only [mapM_eq_ok_iff, List.forall₂_cons_left_iff]
    constructor
    · rintro ⟨_, value, values, first, others, _⟩
      exact ⟨⟨value, first⟩, values, others⟩
    · rintro ⟨⟨value, first⟩, values, others⟩
      exact ⟨_, value, values, first, others, rfl⟩

/-- What every step of a loop keeps is kept by the loop. -/
theorem keeps_foldlM {ε α β : Type} {step : α → β → Except ε α} {P : α → Prop} {xs : List β}
    {start final : α}
    (each : ∀ x ∈ xs, ∀ before after, P before → step before x = .ok after → P after)
    (h : P start) (run : xs.foldlM step start = .ok final) : P final := by
  induction xs generalizing start with
  | nil => exact Except.ok.inj run ▸ h
  | cons x rest ih =>
    obtain ⟨first, others⟩ := List.forall_mem_cons.1 each
    obtain ⟨between, stepped, run⟩ := bind_eq_ok.1 (List.foldlM_cons.symm.trans run)
    exact ih others (first start between h stepped) run

/-- What is related to the elements of a list, one by one, is related to one of them. -/
theorem exists_mem_of_forall₂ {α β : Type} {R : α → β → Prop} {xs : List α} {ys : List β}
    (h : List.Forall₂ R xs ys) {y : β} (mem : y ∈ ys) : ∃ x ∈ xs, R x y := by
  induction h with
  | nil => exact absurd mem List.not_mem_nil
  | cons first _ ih =>
    rcases List.mem_cons.1 mem with rfl | mem
    · exact ⟨_, List.mem_cons_self, first⟩
    · obtain ⟨x, mem, related⟩ := ih mem
      exact ⟨x, List.mem_cons_of_mem _ mem, related⟩

/-- Two lists are looked through one after the other. -/
theorem findSomeM?_append {ε α β : Type} (look : α → Except ε (Option β)) (xs ys : List α) :
    (xs ++ ys).findSomeM? look = xs.findSomeM? look >>= fun found =>
      found.elim (ys.findSomeM? look) fun value => .ok (some value) := by
  induction xs with
  | nil => rfl
  | cons x rest ih =>
    rw [List.cons_append, List.findSomeM?, List.findSomeM?]
    cases look x with
    | error error => rfl
    | ok found =>
      cases found with
      | some value => rfl
      | none => exact ih

/-- What is found in a list is found at one of its elements. -/
theorem exists_mem_of_findSomeM? {ε α β : Type} {look : α → Except ε (Option β)} {xs : List α}
    {value : β} (h : xs.findSomeM? look = .ok (some value)) :
    ∃ x ∈ xs, look x = .ok (some value) := by
  induction xs with
  | nil => cases h
  | cons x rest ih =>
    rw [List.findSomeM?] at h
    obtain ⟨found, step, next⟩ := bind_eq_ok.1 h
    cases found with
    | none =>
      obtain ⟨y, mem, found⟩ := ih next
      exact ⟨y, List.mem_cons_of_mem x mem, found⟩
    | some other =>
      obtain rfl := Option.some.inj (Except.ok.inj next)
      exact ⟨x, List.mem_cons_self, step⟩

/-- Steps that never fail look through every list. -/
theorem exists_findSomeM? {ε α β : Type} {look : α → Except ε (Option β)}
    (total : ∀ x, ∃ found, look x = .ok found) (xs : List α) :
    ∃ found, xs.findSomeM? look = .ok found := by
  induction xs with
  | nil => exact ⟨none, rfl⟩
  | cons x rest ih =>
    obtain ⟨found, step⟩ := total x
    rw [List.findSomeM?, step]
    cases found with
    | none => exact ih
    | some value => exact ⟨some value, rfl⟩

/-- Steps that never fail find what is found without them. -/
theorem findSomeM?_eq_ok {ε α β : Type} {look : α → Except ε (Option β)} {found : α → Option β}
    (total : ∀ x, look x = .ok (found x)) (xs : List α) :
    xs.findSomeM? look = .ok (xs.findSome? found) := by
  induction xs with
  | nil => rfl
  | cons x rest ih =>
    rw [List.findSomeM?, total, List.findSome?_cons, bind_ok]
    cases found x with
    | none => exact ih
    | some value => rfl

end AmbientDecl
