/- # Interleavings

The elements of a list may have owners.  Two lists are **interleavings** of each other when they
hold the same elements and list those of one owner in the same order.

Let a state be taken through a list step by step, and let two steps commute whenever their elements
do not have the same owner, up to some relation between states that all steps respect.  Then both
lists lead to related states (`Interleaves.foldl`): the first element of one list can be moved to
the front of the other one, over elements that are not of its owner.
-/

import Mathlib.Data.List.Perm.Basic

namespace AmbientDecl

variable {α κ σ : Type} {owner? : α → Option κ} {x : α} {xs ys before : List α}

/-- Two elements do not have the same owner. -/
def Apart (owner? : α → Option κ) (x y : α) : Prop :=
  owner? x = none ∨ owner? x ≠ owner? y

section Moving

variable {step : σ → α → σ} {equiv : σ → σ → Prop} {s s' : σ}

theorem foldl_respects (respects : ∀ s s' x, equiv s s' → equiv (step s x) (step s' x))
    (xs : List α) (start : equiv s s') : equiv (xs.foldl step s) (xs.foldl step s') := by
  induction xs generalizing s s' with
  | nil => exact start
  | cons x rest ih => exact ih (respects s s' x start)

variable (symm : ∀ {s s'}, equiv s s' → equiv s' s)
  (trans : ∀ {s s' s''}, equiv s s' → equiv s' s'' → equiv s s'')
  (respects : ∀ s s' x, equiv s s' → equiv (step s x) (step s' x))
  (swap : ∀ s x y, equiv s s → Apart owner? x y →
    equiv (step (step s x) y) (step (step s y) x))

include symm trans respects swap

/-- A step may be taken after others from which it is apart. -/
theorem foldl_step_after (apart : ∀ y ∈ before, Apart owner? x y) (start : equiv s s') :
    equiv (before.foldl step (step s x)) (step (before.foldl step s') x) := by
  induction before generalizing s s' with
  | nil => exact respects s s' x start
  | cons y rest ih =>
    have self : equiv s s := trans start (symm start)
    have first := foldl_respects respects rest (swap s x y self (apart y List.mem_cons_self))
    have others := ih (fun z mem => apart z (List.mem_cons_of_mem _ mem)) (respects s s' y start)
    exact trans first others

end Moving

variable [DecidableEq κ]

/-- Two lists hold the same elements and list those of one owner in the same order. -/
structure Interleaves (owner? : α → Option κ) (xs ys : List α) : Prop where
  perm : xs.Perm ys
  order : ∀ k, xs.filter (fun x => owner? x = some k) = ys.filter fun x => owner? x = some k

/-- The first element stands in the other list after elements that are not of its owner, and
without it the lists are interleavings still. -/
theorem Interleaves.exists_split (h : Interleaves owner? (x :: xs) ys) :
    ∃ before after, ys = before ++ x :: after ∧ (∀ y ∈ before, Apart owner? x y) ∧
      Interleaves owner? xs (before ++ after) := by
  have split : ∃ before after, ys = before ++ x :: after ∧ ∀ y ∈ before, Apart owner? x y := by
    cases owner : owner? x with
    | none =>
      obtain ⟨before, after, rfl⟩ := List.append_of_mem (h.perm.subset List.mem_cons_self)
      exact ⟨before, after, rfl, fun _ _ => .inl owner⟩
    | some k =>
      have order := h.order k
      rw [List.filter_cons, if_pos (by simpa using owner)] at order
      obtain ⟨before, after, rfl, others, -, -⟩ := List.filter_eq_cons_iff.1 order.symm
      refine ⟨before, after, rfl, fun y mem => .inr fun same => ?_⟩
      exact others y mem (by simpa [owner] using same.symm)
  obtain ⟨before, after, rfl, apart⟩ := split
  refine ⟨before, after, rfl, apart, (h.perm.trans List.perm_middle).cons_inv, fun k => ?_⟩
  have order := h.order k
  rw [List.filter_append, List.filter_cons, List.filter_cons] at order
  rw [List.filter_append]
  by_cases own : owner? x = some k
  · have none : before.filter (fun y => decide (owner? y = some k)) = [] := by
      refine List.filter_eq_nil_iff.2 fun y mem same => ?_
      have apart := (apart y mem).resolve_left (by simp [own])
      exact apart (own.trans (of_decide_eq_true same).symm)
    rw [if_pos (by simpa using own), if_pos (by simpa using own), none, List.nil_append] at order
    rw [none, List.nil_append, (List.cons.inj order).2]
  · rwa [if_neg (by simpa using own), if_neg (by simpa using own)] at order

/-- **Interleavings lead to related states.** -/
theorem Interleaves.foldl {step : σ → α → σ} {equiv : σ → σ → Prop} {s s' : σ}
    (symm : ∀ {s s'}, equiv s s' → equiv s' s)
    (trans : ∀ {s s' s''}, equiv s s' → equiv s' s'' → equiv s s'')
    (respects : ∀ s s' x, equiv s s' → equiv (step s x) (step s' x))
    (swap : ∀ s x y, equiv s s → Apart owner? x y →
      equiv (step (step s x) y) (step (step s y) x))
    (h : Interleaves owner? xs ys) (start : equiv s s') :
    equiv (xs.foldl step s) (ys.foldl step s') := by
  induction xs generalizing ys s s' with
  | nil =>
    obtain rfl := List.nil_perm.1 h.perm
    exact start
  | cons x rest ih =>
    obtain ⟨before, after, rfl, apart, others⟩ := h.exists_split
    have self : equiv s s := trans start (symm start)
    have left := ih others (respects s s x self)
    have moved := foldl_respects respects after
      (foldl_step_after symm trans respects swap apart start)
    rw [List.foldl_append] at left ⊢
    exact trans left moved

end AmbientDecl
