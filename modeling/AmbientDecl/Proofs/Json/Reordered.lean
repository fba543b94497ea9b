/- # Values up to the order of members

Two values are the same up to the order of members if one becomes the other by putting the members
of its objects in another order, at every depth (`Json.Reordered`).  Nothing else is left open: a
truth value is no number and a number is no text.

Where no object has a key twice, there is one order by key for the members of an object.  So two
values are the same up to the order of members just when they become equal by sorting
(`Json.reordered_iff`).
-/

import AmbientDecl.Json.Written
import AmbientDecl.Proofs.Json.Keys
import Mathlib.Data.String.Basic

namespace AmbientDecl
namespace Json

mutual

/-- Whether two values are equal up to the order of members. -/
def Reordered : Json → Json → Prop
  | null, null => True
  | bool a, bool b => a = b
  | int m, int n => m = n
  | str s, str t => s = t
  | arr items, arr others => ItemsReordered items others
  | obj members, obj others => MembersReordered members others
  | _, _ => False

/-- Whether two lists are, element by element. -/
def ItemsReordered : List Json → List Json → Prop
  | [], [] => True
  | item :: items, other :: others => Reordered item other ∧ ItemsReordered items others
  | _, _ => False

/-- Whether the members of an object are those of another one, in any order. -/
def MembersReordered : List (String × Json) → List (String × Json) → Prop
  | [], others => others = []
  | (key, value) :: members, others => ∃ before value' after,
    others = before ++ (key, value') :: after ∧ Reordered value value' ∧
      MembersReordered members (before ++ after)

end

variable {items others : List Json} {members members' : List (String × Json)}
  {entry : String × Json} {value other : Json}

/-- A member with its value sorted. -/
def sortedValue (entry : String × Json) : String × Json := (entry.1, entry.2.sorted)

theorem sortedItems_eq_map (items : List Json) : sortedItems items = items.map sorted := by
  induction items with
  | nil => rfl
  | cons item rest ih => rw [sortedItems, ih, List.map_cons]

theorem insertByKey_perm (entry : String × Json) (members : List (String × Json)) :
    (insertByKey entry members).Perm (entry :: members) := by
  induction members with
  | nil => rfl
  | cons head rest ih =>
    rw [insertByKey]
    split
    · rfl
    · exact (ih.cons head).trans (.swap entry head rest)

/-- Sorting changes the order of the members and their values. -/
theorem sortedMembers_perm (members : List (String × Json)) :
    (sortedMembers members).Perm (members.map sortedValue) := by
  induction members with
  | nil => rfl
  | cons entry rest ih => exact (insertByKey_perm _ _).trans (ih.cons _)

theorem pairwise_insertByKey (h : members.Pairwise fun a b => a.1 ≤ b.1) :
    (insertByKey entry members).Pairwise fun a b => a.1 ≤ b.1 := by
  induction members with
  | nil => exact List.pairwise_singleton _ _
  | cons head rest ih =>
    obtain ⟨first, rest_sorted⟩ := List.pairwise_cons.1 h
    rw [insertByKey]
    split
    · rename_i less
      refine List.pairwise_cons.2 ⟨fun other mem => ?_, h⟩
      rcases List.mem_cons.1 mem with rfl | mem
      · exact le_of_lt less
      · exact (le_of_lt less).trans (first other mem)
    · rename_i least
      refine List.pairwise_cons.2 ⟨fun other mem => ?_, ih rest_sorted⟩
      rcases List.mem_cons.1 ((insertByKey_perm entry rest).mem_iff.1 mem) with rfl | mem
      · exact not_lt.1 least
      · exact first other mem

theorem pairwise_sortedMembers (members : List (String × Json)) :
    (sortedMembers members).Pairwise fun a b => a.1 ≤ b.1 := by
  induction members with
  | nil => exact .nil
  | cons entry rest ih => exact pairwise_insertByKey ih

theorem keys_map_sortedValue (members : List (String × Json)) :
    Entries.keys (members.map sortedValue) = Entries.keys members := by
  rw [Entries.keys, List.map_map]
  rfl

/-- Sorting keeps the keys of an object, in another order. -/
theorem keys_sortedMembers_perm (members : List (String × Json)) :
    (Entries.keys (sortedMembers members)).Perm (Entries.keys members) := by
  rw [← keys_map_sortedValue members]
  exact (sortedMembers_perm members).map Prod.fst

/-- Two objects without repeated keys have the same sorted members if one has the sorted values of
the other. -/
theorem sortedMembers_eq_iff (nodup : (Entries.keys members).Nodup) :
    sortedMembers members = sortedMembers members' ↔
      (members.map sortedValue).Perm (members'.map sortedValue) := by
  constructor
  · intro same
    exact (sortedMembers_perm members).symm.trans (same ▸ sortedMembers_perm members')
  · intro perm
    have perm' : (sortedMembers members).Perm (sortedMembers members') :=
      ((sortedMembers_perm members).trans perm).trans (sortedMembers_perm members').symm
    have nodup' : (Entries.keys (sortedMembers members)).Nodup :=
      (keys_sortedMembers_perm members).nodup_iff.2 nodup
    refine perm'.eq_of_pairwise ?_ (pairwise_sortedMembers _) (pairwise_sortedMembers _)
    intro a b mem mem' le le'
    obtain ⟨key, value⟩ := a
    obtain ⟨key', value'⟩ := b
    obtain rfl : key = key' := le_antisymm le le'
    have there := Entries.get?_of_mem nodup' mem
    have there' := Entries.get?_of_mem nodup' (perm'.mem_iff.2 mem')
    rw [Option.some.inj (there.symm.trans there')]

/-- Members are others in another order if their sorted values are. -/
theorem membersReordered_iff
    (h : ∀ entry ∈ members, ∀ entry' ∈ members',
      (Reordered entry.2 entry'.2 ↔ entry.2.sorted = entry'.2.sorted)) :
    MembersReordered members members' ↔
      (members.map sortedValue).Perm (members'.map sortedValue) := by
  induction members generalizing members' with
  | nil => simp [MembersReordered]
  | cons entry rest ih =>
    obtain ⟨key, value⟩ := entry
    obtain ⟨first, h⟩ := List.forall_mem_cons.1 h
    -- What is left of the other members once one has been taken out.
    have step : ∀ before value' after, members' = before ++ (key, value') :: after →
        value.sorted = value'.sorted →
        (MembersReordered rest (before ++ after) ↔
          (((key, value) :: rest).map sortedValue).Perm (members'.map sortedValue)) := by
      rintro before value' after rfl same
      have others : ∀ entry ∈ rest, ∀ entry' ∈ before ++ after,
          (Reordered entry.2 entry'.2 ↔ entry.2.sorted = entry'.2.sorted) := by
        intro entry mem entry' mem'
        refine h entry mem entry' ?_
        rcases List.mem_append.1 mem' with mem' | mem'
        · exact List.mem_append_left _ mem'
        · exact List.mem_append_right _ (List.mem_cons_of_mem _ mem')
      have taken : sortedValue (key, value') = sortedValue (key, value) := by
        rw [sortedValue, sortedValue, same]
      rw [ih others, List.map_append, List.map_append, List.map_cons, List.map_cons, taken]
      exact ⟨fun perm => (perm.cons _).trans List.perm_middle.symm,
        fun perm => (perm.trans List.perm_middle).cons_inv⟩
    rw [MembersReordered]
    constructor
    · rintro ⟨before, value', after, split, same, rest⟩
      have mem : (key, value') ∈ members' := split ▸ by simp
      exact (step before value' after split ((first _ mem).1 same)).1 rest
    · intro perm
      obtain ⟨⟨key', value'⟩, mem, same⟩ := List.mem_map.1 (perm.mem_iff.1 List.mem_cons_self)
      obtain ⟨rfl, same⟩ := Prod.mk.inj same
      obtain ⟨before, after, split⟩ := List.append_of_mem mem
      exact ⟨before, value', after, split, (first _ mem).2 same.symm,
        (step before value' after split same.symm).2 perm⟩

/-- Lists are the same element by element if they are so sorted. -/
theorem itemsReordered_iff
    (h : ∀ item ∈ items, ∀ other ∈ others, (Reordered item other ↔ item.sorted = other.sorted)) :
    ItemsReordered items others ↔ items.map sorted = others.map sorted := by
  induction items generalizing others with
  | nil => cases others <;> simp [ItemsReordered]
  | cons item rest ih =>
    cases others with
    | nil => simp [ItemsReordered]
    | cons other others =>
      obtain ⟨first, h⟩ := List.forall_mem_cons.1 h
      have others' : ∀ item ∈ rest, ∀ other ∈ others,
          (Reordered item other ↔ item.sorted = other.sorted) := fun item mem other mem' =>
        h item mem other (List.mem_cons_of_mem _ mem')
      rw [ItemsReordered, ih others', first other List.mem_cons_self, List.map_cons, List.map_cons,
        List.cons.injEq]

/-- **Values are the same up to the order of members just when they are equal when sorted.** -/
theorem reordered_iff (unique : value.hasUniqueKeys = true) (unique' : other.hasUniqueKeys = true) :
    Reordered value other ↔ value.sorted = other.sorted := by
  induction value using byParts generalizing other with
  | null => cases other <;> simp [Reordered, sorted]
  | bool b => cases other <;> simp [Reordered, sorted]
  | int n => cases other <;> simp [Reordered, sorted]
  | str s => cases other <;> simp [Reordered, sorted]
  | arr items ih =>
    cases other with
    | arr others =>
      rw [hasUniqueKeys_arr] at unique unique'
      rw [Reordered, sorted, sorted, arr.injEq, sortedItems_eq_map, sortedItems_eq_map]
      exact itemsReordered_iff fun item mem other mem' =>
        ih item mem (unique item mem) (unique' other mem')
    | _ => simp [Reordered, sorted]
  | obj members ih =>
    cases other with
    | obj members' =>
      obtain ⟨nodup, unique⟩ := hasUniqueKeys_obj.1 unique
      obtain ⟨-, unique'⟩ := hasUniqueKeys_obj.1 unique'
      rw [Reordered, sorted, sorted, obj.injEq, sortedMembers_eq_iff nodup]
      exact membersReordered_iff fun entry mem entry' mem' =>
        ih entry mem (unique entry mem) (unique' entry' mem')
    | _ => simp [Reordered, sorted]

/-- Sorting keeps the keys unique. -/
theorem hasUniqueKeys_sorted (unique : value.hasUniqueKeys = true) :
    value.sorted.hasUniqueKeys = true := by
  induction value using byParts with
  | null => rfl
  | bool b => rfl
  | int n => rfl
  | str s => rfl
  | arr items ih =>
    rw [hasUniqueKeys_arr] at unique
    rw [sorted, sortedItems_eq_map, hasUniqueKeys_arr]
    exact List.forall_mem_map.2 fun item mem => ih item mem (unique item mem)
  | obj members ih =>
    obtain ⟨nodup, unique⟩ := hasUniqueKeys_obj.1 unique
    rw [sorted, hasUniqueKeys_obj]
    refine ⟨(keys_sortedMembers_perm members).nodup_iff.2 nodup, fun entry mem => ?_⟩
    obtain ⟨entry', mem', rfl⟩ := List.mem_map.1 ((sortedMembers_perm members).mem_iff.1 mem)
    exact ih entry' mem' (unique entry' mem')

end Json
end AmbientDecl
