/- # Ordered tables

A table is a list of entries, a key and a value each.  A key keeps the position at which it
first came; writing it again replaces the value in place.
-/

namespace AmbientDecl
namespace Entries

variable {α : Type}

/-- The value of the first entry under `key`. -/
def get? (key : String) : List (String × α) → Option α
  | [] => none
  | (k, v) :: rest => if k = key then some v else get? key rest

/-- Writes `value` under `key`: in place when the key is there, at the end otherwise. -/
def put (key : String) (value : α) : List (String × α) → List (String × α)
  | [] => [(key, value)]
  | (k, v) :: rest => if k = key then (k, value) :: rest else (k, v) :: put key value rest

/-- The table after writing all of `entries` in their order. -/
def putAll (table entries : List (String × α)) : List (String × α) :=
  entries.foldl (fun table (key, value) => put key value table) table

/-- The keys in the order of their entries. -/
def keys (table : List (String × α)) : List String :=
  table.map (·.1)

/-- Adds `value` under `key` when nothing stands there yet. -/
def putNew (key : String) (value : α) (table : List (String × α)) : List (String × α) :=
  if (get? key table).isSome then table else table ++ [(key, value)]

@[simp] theorem get?_nil (key : String) : get? key ([] : List (String × α)) = none := rfl

theorem get?_put (key other : String) (value : α) (table : List (String × α)) :
    get? other (put key value table) = if key = other then some value else get? other table := by
  induction table with
  | nil => simp [put, get?]
  | cons entry rest ih =>
    obtain ⟨k, v⟩ := entry
    by_cases hk : k = key
    · subst hk
      by_cases ho : k = other <;> simp [put, get?, ho]
    · by_cases ho : k = other
      · subst ho
        simp [put, get?, hk, Ne.symm hk]
      · simp [put, get?, hk, ho, ih]

theorem get?_isSome_iff {key : String} {table : List (String × α)} :
    (get? key table).isSome ↔ key ∈ keys table := by
  induction table with
  | nil => simp [keys]
  | cons entry rest ih =>
    obtain ⟨k, v⟩ := entry
    by_cases hk : k = key
    · simp [get?, keys, hk]
    · simpa [get?, keys, hk, Ne.symm hk] using ih

/-- A written key keeps its place or comes last. -/
theorem keys_put (key : String) (value : α) (table : List (String × α)) :
    keys (put key value table) =
      if key ∈ keys table then keys table else keys table ++ [key] := by
  induction table with
  | nil => simp [put, keys]
  | cons entry rest ih =>
    obtain ⟨k, v⟩ := entry
    by_cases hk : k = key
    · simp [put, keys, hk]
    · have ih' : (put key value rest).map (·.1) =
          if key ∈ rest.map (·.1) then rest.map (·.1) else rest.map (·.1) ++ [key] := ih
      by_cases hm : key ∈ rest.map (·.1) <;> simp_all [put, keys, Ne.symm hk]

end Entries
end AmbientDecl
