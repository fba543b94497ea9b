/- # First elements of their keys

Elements come one after the other, each with a key.  The first one with a key is kept
(`Keyed.firsts`), and the others repeat it (`Keyed.repeats`).  Both are split at the place where a
list is put together, so they can be followed along a run that takes the elements in order.
-/

import Mathlib.Data.List.Nodup

namespace AmbientDecl
namespace Keyed

variable {α β : Type} [DecidableEq β] {key : α → β} {seen : List β} {xs ys : List α} {x : α}

/-- The elements whose keys have not come before, the keys `seen` included. -/
def firstsAfter (key : α → β) (seen : List β) : List α → List α
  | [] => []
  | x :: xs =>
    if key x ∈ seen then firstsAfter key (seen ++ [key x]) xs
    else x :: firstsAfter key (seen ++ [key x]) xs

/-- The elements whose keys have come before. -/
def repeatsAfter (key : α → β) (seen : List β) : List α → List α
  | [] => []
  | x :: xs =>
    if key x ∈ seen then x :: repeatsAfter key (seen ++ [key x]) xs
    else repeatsAfter key (seen ++ [key x]) xs

/-- The first element of each key, in order. -/
def firsts (key : α → β) (xs : List α) : List α := firstsAfter key [] xs

/-- All elements but the first ones of their keys, in order. -/
def repeats (key : α → β) (xs : List α) : List α := repeatsAfter key [] xs

theorem firstsAfter_append : firstsAfter key seen (xs ++ ys) =
    firstsAfter key seen xs ++ firstsAfter key (seen ++ xs.map key) ys := by
  induction xs generalizing seen with
  | nil => simp [firstsAfter]
  | cons x xs ih => by_cases h : key x ∈ seen <;> simp [firstsAfter, h, ih]

theorem repeatsAfter_append : repeatsAfter key seen (xs ++ ys) =
    repeatsAfter key seen xs ++ repeatsAfter key (seen ++ xs.map key) ys := by
  induction xs generalizing seen with
  | nil => simp [repeatsAfter]
  | cons x xs ih => by_cases h : key x ∈ seen <;> simp [repeatsAfter, h, ih]

theorem mem_keys_firstsAfter {k : β} :
    k ∈ (firstsAfter key seen xs).map key ↔ k ∈ xs.map key ∧ k ∉ seen := by
  induction xs generalizing seen with
  | nil => simp [firstsAfter]
  | cons x xs ih =>
    by_cases h : key x ∈ seen
    · rw [firstsAfter, if_pos h, ih, List.map_cons, List.mem_cons, List.mem_append,
        List.mem_singleton]
      constructor
      · rintro ⟨mem, other⟩
        exact ⟨.inr mem, fun mem => other (.inl mem)⟩
      · rintro ⟨rfl | mem, other⟩
        · exact absurd h other
        · exact ⟨mem, fun old => old.elim other fun same => other (same ▸ h)⟩
    · rw [firstsAfter, if_neg h, List.map_cons, List.mem_cons, ih, List.map_cons, List.mem_cons,
        List.mem_append, List.mem_singleton]
      constructor
      · rintro (rfl | ⟨mem, other⟩)
        · exact ⟨.inl rfl, h⟩
        · exact ⟨.inr mem, fun mem => other (.inl mem)⟩
      · rintro ⟨rfl | mem, other⟩
        · exact .inl rfl
        · by_cases same : k = key x
          · exact .inl same
          · exact .inr ⟨mem, fun old => old.elim other same⟩

/-- The keys of the first elements are those of all. -/
theorem mem_keys_firsts {k : β} : k ∈ (firsts key xs).map key ↔ k ∈ xs.map key := by
  rw [firsts, mem_keys_firstsAfter]
  simp

/-- One more element is kept when its key is new. -/
theorem firsts_concat : firsts key (xs ++ [x]) =
    if key x ∈ (firsts key xs).map key then firsts key xs else firsts key xs ++ [x] := by
  rw [firsts, firstsAfter_append, List.nil_append, firstsAfter, firstsAfter, ← firsts]
  simp only [mem_keys_firsts]
  split <;> simp

end Keyed
end AmbientDecl
