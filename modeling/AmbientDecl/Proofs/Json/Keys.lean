/- # Values whose keys are unique

A value is made of parts: the elements of a list and the values of the members of an object.  What
passes from the parts of a value to the value holds of all values (`Json.byParts`).

An object that stands for a table has no key twice.  A value has **unique keys** if this holds of
every object in it (`Json.hasUniqueKeys`).  Such a value is alike to itself (`Json.alike_self`).

Keys, one inside the other, lead to what stands in a value at a depth (`Json.within?`).
-/

import AmbientDecl.Json.Basic
import AmbientDecl.Proofs.Entries

namespace AmbientDecl
namespace Json

variable {items : List Json} {members : List (String × Json)}

/-- A property of values passes from the parts of a value to the value. -/
@[elab_as_elim]
theorem byParts {P : Json → Prop} (null : P null) (bool : ∀ b, P (bool b)) (int : ∀ n, P (int n))
    (str : ∀ s, P (str s)) (arr : ∀ items, (∀ item ∈ items, P item) → P (arr items))
    (obj : ∀ members, (∀ entry ∈ members, P entry.2) → P (obj members)) (value : Json) :
    P value := by
  -- The motives are for values, for elements, for members and for one member.
  refine @Json.rec P (fun items => ∀ item ∈ items, P item)
    (fun members => ∀ entry ∈ members, P entry.2) (fun entry => P entry.2)
    null bool int str arr obj ?_ ?_ ?_ ?_ ?_ value
  · exact List.forall_mem_nil _
  · exact fun _ _ first rest => List.forall_mem_cons.2 ⟨first, rest⟩
  · exact List.forall_mem_nil _
  · exact fun _ _ first rest => List.forall_mem_cons.2 ⟨first, rest⟩
  · exact fun _ _ value => value

mutual

/-- Whether no object in a value has a key twice. -/
def hasUniqueKeys : Json → Bool
  | arr items => itemsHaveUniqueKeys items
  | obj members => membersHaveUniqueKeys members
  | _ => true

/-- The same for every element of a list. -/
def itemsHaveUniqueKeys : List Json → Bool
  | [] => true
  | item :: rest => hasUniqueKeys item && itemsHaveUniqueKeys rest

/-- The same for the members of an object and the value of each one. -/
def membersHaveUniqueKeys : List (String × Json) → Bool
  | [] => true
  | (key, value) :: rest =>
    !(Entries.keys rest).contains key && hasUniqueKeys value && membersHaveUniqueKeys rest

end

@[simp] theorem hasUniqueKeys_arr :
    (arr items).hasUniqueKeys = true ↔ ∀ item ∈ items, item.hasUniqueKeys = true := by
  rw [hasUniqueKeys]
  induction items with
  | nil => simp [itemsHaveUniqueKeys]
  | cons item rest ih => rw [itemsHaveUniqueKeys, Bool.and_eq_true, ih, List.forall_mem_cons]

@[simp] theorem hasUniqueKeys_obj : (obj members).hasUniqueKeys = true ↔
    (Entries.keys members).Nodup ∧ ∀ entry ∈ members, entry.2.hasUniqueKeys = true := by
  rw [hasUniqueKeys]
  induction members with
  | nil => simp [membersHaveUniqueKeys, Entries.keys]
  | cons entry rest ih =>
    obtain ⟨key, value⟩ := entry
    have head : Entries.keys ((key, value) :: rest) = key :: Entries.keys rest := rfl
    have new : (!(Entries.keys rest).contains key) = true ↔ key ∉ Entries.keys rest := by simp
    rw [membersHaveUniqueKeys, Bool.and_eq_true, Bool.and_eq_true, ih, new, head, List.nodup_cons,
      List.forall_mem_cons, and_and_and_comm]

/-- What stands in a value under keys, one inside the other. -/
def within? : List String → Json → Option Json
  | [], value => some value
  | key :: keys, .obj fields => (Entries.get? key fields).bind (within? keys)
  | _ :: _, _ => none

/-- What is found under a key has unique keys if the object has. -/
theorem hasUniqueKeys_of_get? {key : String} {value : Json}
    (unique : (obj members).hasUniqueKeys = true) (found : Entries.get? key members = some value) :
    value.hasUniqueKeys = true :=
  (hasUniqueKeys_obj.1 unique).2 _ (Entries.mem_of_get? found)

theorem hasUniqueKeys_within? {keys : List String} {value inner : Json}
    (unique : value.hasUniqueKeys = true) (found : value.within? keys = some inner) :
    inner.hasUniqueKeys = true := by
  induction keys generalizing value with
  | nil =>
    rw [within?] at found
    exact Option.some.inj found ▸ unique
  | cons key keys ih =>
    cases value with
    | obj members =>
      obtain ⟨next, first, found⟩ := Option.bind_eq_some_iff.1 found
      exact ih (hasUniqueKeys_of_get? unique first) found
    | null => cases found
    | bool b => cases found
    | int n => cases found
    | str s => cases found
    | arr items => cases found

theorem itemsAlike_self (h : ∀ item ∈ items, alike item item = true) :
    itemsAlike items items = true := by
  induction items with
  | nil => rfl
  | cons item rest ih =>
    obtain ⟨first, rest⟩ := List.forall_mem_cons.1 h
    rw [itemsAlike, first, ih rest, Bool.and_self]

/-- Members are alike to members of another object that holds them all. -/
theorem membersAlike_of_subset {others : List (String × Json)} (nodup : (Entries.keys others).Nodup)
    (subset : members ⊆ others) (h : ∀ entry ∈ members, alike entry.2 entry.2 = true) :
    membersAlike members others = true := by
  induction members with
  | nil => rfl
  | cons entry rest ih =>
    obtain ⟨key, value⟩ := entry
    obtain ⟨mem, subset⟩ := List.cons_subset.1 subset
    obtain ⟨first, h⟩ := List.forall_mem_cons.1 h
    rw [membersAlike, Entries.get?_of_mem nodup mem, ih subset h]
    simpa using first

/-- **A value with unique keys is alike to itself.** -/
theorem alike_self {value : Json} (unique : value.hasUniqueKeys = true) :
    alike value value = true := by
  induction value using byParts with
  | null => rfl
  | bool b => simp [alike]
  | int n => simp [alike]
  | str s => simp [alike]
  | arr items ih =>
    rw [hasUniqueKeys_arr] at unique
    rw [alike]
    exact itemsAlike_self fun item mem => ih item mem (unique item mem)
  | obj members ih =>
    obtain ⟨nodup, unique⟩ := hasUniqueKeys_obj.1 unique
    rw [alike, beq_self_eq_true, Bool.true_and]
    exact membersAlike_of_subset nodup (List.Subset.refl _) fun entry mem =>
      ih entry mem (unique entry mem)

end Json
end AmbientDecl
