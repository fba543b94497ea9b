/- # What a table holds

An entry that is found is in the table, and where no key comes twice it is the only one under its
key.  A writing under a new key adds an entry at the end, and one under a key that is there changes
the entry of that key.
-/

import AmbientDecl.Entries

namespace AmbientDecl
namespace Entries

variable {α : Type} {key : String} {value old : α} {table : List (String × α)}

theorem mem_of_get? (h : get? key table = some value) : (key, value) ∈ table := by
  induction table with
  | nil => simp at h
  | cons entry rest ih =>
    obtain ⟨k, v⟩ := entry
    by_cases hk : k = key
    · simp only [get?, hk, if_true, Option.some.injEq] at h
      simp [hk, h]
    · rw [get?, if_neg hk] at h
      exact List.mem_cons_of_mem _ (ih h)

/-- A table after a writing holds what it held before and the entry written. -/
theorem mem_put {entry : String × α} (h : entry ∈ put key value table) :
    entry = (key, value) ∨ entry ∈ table := by
  induction table with
  | nil => exact .inl (List.mem_singleton.1 h)
  | cons first rest ih =>
    obtain ⟨k, v⟩ := first
    rw [put] at h
    split at h
    · rename_i hk
      rcases List.mem_cons.1 h with rfl | h
      · exact .inl (by rw [hk])
      · exact .inr (List.mem_cons_of_mem _ h)
    · rcases List.mem_cons.1 h with rfl | h
      · exact .inr List.mem_cons_self
      · exact (ih h).imp_right (List.mem_cons_of_mem _)

theorem nodup_keys_put (key : String) (value : α) (h : (keys table).Nodup) :
    (keys (put key value table)).Nodup := by
  rw [keys_put]
  split
  · exact h
  · rename_i new
    refine List.nodup_append.2 ⟨h, List.pairwise_singleton _ key, fun k mem k' mem' => ?_⟩
    rw [List.mem_singleton.1 mem']
    exact fun same => new (same ▸ mem)

@[simp] theorem keys_append (table table' : List (String × α)) :
    keys (table ++ table') = keys table ++ keys table' :=
  List.map_append

theorem put_eq_append (h : get? key table = none) (value : α) :
    put key value table = table ++ [(key, value)] := by
  induction table with
  | nil => rfl
  | cons entry rest ih =>
    obtain ⟨k, v⟩ := entry
    by_cases same : k = key
    · simp [get?, same] at h
    · rw [get?, if_neg same] at h
      rw [put, if_neg same, ih h, List.cons_append]

/-- Where no key comes twice, writing entries one after the other adds them. -/
theorem putAll_of_nodup {entries : List (String × α)} (nodup : (keys (table ++ entries)).Nodup) :
    putAll table entries = table ++ entries := by
  induction entries generalizing table with
  | nil => exact (List.append_nil table).symm
  | cons entry entries ih =>
    obtain ⟨key, value⟩ := entry
    have new : get? key table = none := by
      refine Option.not_isSome_iff_eq_none.1 fun there => ?_
      rw [keys_append] at nodup
      exact (List.nodup_append.1 nodup).2.2 key (get?_isSome_iff.1 there) key List.mem_cons_self rfl
    have added : putAll table ((key, value) :: entries) =
        putAll (table ++ [(key, value)]) entries := by
      rw [← put_eq_append new]
      rfl
    rw [List.append_cons] at nodup ⊢
    rw [added, ih nodup]

theorem put_of_get? (h : get? key table = some value) : put key value table = table := by
  induction table with
  | nil => cases h
  | cons entry rest ih =>
    obtain ⟨k, v⟩ := entry
    by_cases same : k = key
    · rw [get?, if_pos same] at h
      rw [put, if_pos same, Option.some.inj h]
    · rw [get?, if_neg same] at h
      rw [put, if_neg same, ih h]

theorem isNone_get? (key : String) (table : List (String × α)) :
    (get? key table).isNone = !decide (key ∈ keys table) := by
  by_cases there : key ∈ keys table
  · simpa [there] using get?_isSome_iff.2 there
  · simpa [there] using Option.not_isSome_iff_eq_none.1 fun h => there (get?_isSome_iff.1 h)

/-- Where no key comes twice, an entry is what is found under its key. -/
theorem get?_of_mem (nodup : (keys table).Nodup) (mem : (key, value) ∈ table) :
    get? key table = some value := by
  induction table with
  | nil => exact absurd mem List.not_mem_nil
  | cons entry rest ih =>
    obtain ⟨k, v⟩ := entry
    obtain ⟨new, nodup⟩ := List.nodup_cons.1 nodup
    rcases List.mem_cons.1 mem with same | mem
    · obtain ⟨rfl, rfl⟩ := Prod.mk.inj same
      rw [get?, if_pos rfl]
    · have ne : k ≠ key := by
        rintro rfl
        exact new (List.mem_map.2 ⟨_, mem, rfl⟩)
      rw [get?, if_neg ne]
      exact ih nodup mem

/-- Writing under a key that is there changes the entry of that key. -/
theorem put_eq_map (nodup : (keys table).Nodup) (h : get? key table = some old) (value : α) :
    put key value table = table.map fun entry => if entry.1 = key then (key, value) else entry := by
  induction table with
  | nil => cases h
  | cons entry rest ih =>
    obtain ⟨k, v⟩ := entry
    obtain ⟨new, nodup⟩ := List.nodup_cons.1 nodup
    by_cases same : k = key
    · subst same
      have others : rest.map (fun entry => if entry.1 = k then (k, value) else entry) = rest := by
        refine (List.map_congr_left fun entry mem => if_neg ?_).trans (List.map_id' rest)
        rintro rfl
        exact new (List.mem_map.2 ⟨entry, mem, rfl⟩)
      rw [put, if_pos rfl, List.map_cons, if_pos rfl, others]
    · rw [get?, if_neg same] at h
      rw [put, if_neg same, ih nodup h, List.map_cons, if_neg same]

end Entries
end AmbientDecl
