/- # Merging is idempotent and loses nothing

Under each key the merge of two configurations has the value of one of them, or what the values of
both are merged to (`get?_merge`).  So its keys are those of the base and then the new ones of the
update (`keys_merge`), and keys that lead to an object in both lead to the merge of the two objects
(`within?_merge`).

Merging a value over what it has been merged over before changes nothing
(`mergeValue_mergeValue`), since an element that has been joined to a list is alike to one in the
list.  A value is merged over itself without a change (`mergeValue_self`).

Two lists under an additive key are joined: each element of the update is kept or not
(`JoinsNew`).
-/

import AmbientDecl.Config.Merge
import AmbientDecl.Proofs.Json.Keys
import Mathlib.Data.List.Induction

namespace AmbientDecl
namespace Config

open Json

variable {list items : List Json} {item value : Json} {key : String} {old? : Option Json}
  {base update : List (String × Json)}

theorem appendNew_concat : appendNew list (items ++ [item]) =
    if (appendNew list items).any (alike item) then appendNew list items
    else appendNew list items ++ [item] := by
  rw [appendNew, List.foldl_append]
  rfl

theorem appendNew_cons : appendNew list (item :: items) =
    appendNew (if list.any (alike item) then list else list ++ [item]) items := rfl

/-- Nothing is added where everything is there. -/
theorem appendNew_of_alike (there : ∀ item ∈ items, list.any (alike item) = true) :
    appendNew list items = list := by
  induction items with
  | nil => rfl
  | cons item rest ih =>
    obtain ⟨first, there⟩ := List.forall_mem_cons.1 there
    rw [appendNew_cons, if_pos first, ih there]

theorem any_appendNew (h : list.any (alike value) = true) :
    (appendNew list items).any (alike value) = true := by
  induction items generalizing list with
  | nil => exact h
  | cons item rest ih =>
    rw [appendNew_cons]
    refine ih ?_
    split
    · exact h
    · rw [List.any_append, h, Bool.true_or]

/-- What has been added is there. -/
theorem any_alike_appendNew (self : ∀ item ∈ items, alike item item = true) (mem : value ∈ items) :
    (appendNew list items).any (alike value) = true := by
  induction items generalizing list with
  | nil => exact absurd mem List.not_mem_nil
  | cons item rest ih =>
    obtain ⟨first, self⟩ := List.forall_mem_cons.1 self
    rw [appendNew_cons]
    rcases List.mem_cons.1 mem with rfl | mem
    · refine any_appendNew ?_
      split
      · assumption
      · simp [first]
    · exact ih self mem

/-- Elements of `items` are joined to a list: each one is kept if it is alike to no element of the
list and to none that was kept before it. -/
def JoinsNew (list items joined : List Json) : Prop :=
  ∃ marked : List (Json × Bool), marked.map Prod.fst = items ∧
    joined = list ++ (marked.filter Prod.snd).map Prod.fst ∧
    ∀ before item kept after, marked = before ++ (item, kept) :: after →
      (kept = true ↔ ∀ other ∈ list ++ (before.filter Prod.snd).map Prod.fst,
        alike item other = false)

theorem joinsNew_appendNew (list items : List Json) :
    JoinsNew list items (appendNew list items) := by
  induction items using List.reverseRecOn with
  | nil => exact ⟨[], rfl, (List.append_nil list).symm, fun before _ _ _ split => by simp at split⟩
  | append_singleton items item ih =>
    obtain ⟨marked, elements, joined, marks⟩ := ih
    refine ⟨marked ++ [(item, !(appendNew list items).any (alike item))], ?_, ?_, ?_⟩
    · rw [List.map_append, elements]
      rfl
    · rw [appendNew_concat, List.filter_append, List.map_append, ← List.append_assoc, ← joined]
      cases (appendNew list items).any (alike item) <;> simp
    · intro before other kept after split
      rcases List.eq_nil_or_concat after with rfl | ⟨after, last, rfl⟩
      · obtain ⟨rfl, same⟩ := List.append_inj' split rfl
        obtain ⟨rfl, rfl⟩ := Prod.mk.inj (List.head_eq_of_cons_eq same)
        rw [← joined]
        simp
      · rw [List.concat_eq_append, ← List.cons_append, ← List.append_assoc] at split
        exact marks before other kept after (List.append_inj_left' split rfl)

/-- **What stands under a key of a merge.** -/
theorem get?_merge (nodup : (Entries.keys update).Nodup) (key : String) :
    Entries.get? key (merge base update) =
      match Entries.get? key update with
      | some value => some (mergeValue key (Entries.get? key base) value)
      | none => Entries.get? key base := by
  induction update generalizing base with
  | nil => rfl
  | cons entry rest ih =>
    obtain ⟨first, value⟩ := entry
    obtain ⟨new, nodup⟩ := List.nodup_cons.1 nodup
    rw [merge, ih nodup, Entries.get?_put, Entries.get?]
    by_cases same : first = key
    · subst same
      have absent : Entries.get? first rest = none := by
        rw [← Option.not_isSome_iff_eq_none, Entries.get?_isSome_iff]
        exact new
      rw [if_pos rfl, if_pos rfl, absent]
    · rw [if_neg same, if_neg same]

/-- **The keys of a merge** are those of the base and then the new ones of the update. -/
theorem keys_merge (nodup : (Entries.keys update).Nodup) :
    Entries.keys (merge base update) =
      Entries.keys base ++ (Entries.keys update).filter (· ∉ Entries.keys base) := by
  induction update generalizing base with
  | nil => simp [merge, Entries.keys]
  | cons entry rest ih =>
    obtain ⟨first, value⟩ := entry
    obtain ⟨new, nodup⟩ := List.nodup_cons.1 nodup
    have head : Entries.keys ((first, value) :: rest) = first :: Entries.keys rest := rfl
    rw [merge, ih nodup, Entries.keys_put, head]
    by_cases there : first ∈ Entries.keys base
    · simp [there]
    · have others : (Entries.keys rest).filter (· ∉ Entries.keys base ++ [first]) =
          (Entries.keys rest).filter (· ∉ Entries.keys base) := by
        refine List.filter_congr fun key mem => ?_
        have ne : key ≠ first := fun same => new (same ▸ mem)
        simp [ne]
      rw [if_neg there, others, List.filter_cons_of_pos (by simpa using there), List.append_assoc]
      rfl

/-- A merge changes nothing where every member of the update is there and stays. -/
theorem merge_eq_self (stays : ∀ entry ∈ update, ∃ old, Entries.get? entry.1 base = some old ∧
    mergeValue entry.1 (some old) entry.2 = old) : merge base update = base := by
  induction update with
  | nil => rfl
  | cons entry rest ih =>
    obtain ⟨⟨old, there, same⟩, stays⟩ := List.forall_mem_cons.1 stays
    rw [merge, there, same, Entries.put_of_get? there, ih stays]

/-- **A value is merged over itself without a change.** -/
theorem mergeValue_self (unique : value.hasUniqueKeys = true) (key : String) :
    mergeValue key (some value) value = value := by
  induction value using byParts generalizing key with
  | null => rfl
  | bool b => rfl
  | int n => rfl
  | str s => rfl
  | arr items _ =>
    have self : ∀ item ∈ items, items.any (alike item) = true := fun item mem =>
      List.any_eq_true.2 ⟨item, mem, alike_self (hasUniqueKeys_arr.1 unique item mem)⟩
    rw [mergeValue, appendNew_of_alike self, ite_self]
  | obj members ih =>
    obtain ⟨nodup, unique⟩ := hasUniqueKeys_obj.1 unique
    rw [mergeValue, merge_eq_self fun entry mem => ?_]
    exact ⟨entry.2, Entries.get?_of_mem nodup mem, ih entry mem (unique entry mem) entry.1⟩

/-- **A value that has been merged in is merged in again without a change.** -/
theorem mergeValue_mergeValue (unique : value.hasUniqueKeys = true) (key : String)
    (old? : Option Json) :
    mergeValue key (some (mergeValue key old? value)) value = mergeValue key old? value := by
  induction value using byParts generalizing key old? with
  | null => rfl
  | bool b => rfl
  | int n => rfl
  | str s => rfl
  | arr items _ =>
    have self : ∀ item ∈ items, alike item item = true := fun item mem =>
      alike_self (hasUniqueKeys_arr.1 unique item mem)
    have replaced : mergeValue key (some (.arr items)) (.arr items) = .arr items :=
      mergeValue_self unique key
    rcases old? with _ | (_ | _ | _ | _ | list | _)
    case some.arr =>
      by_cases additive : key ∈ additiveKeys
      · have again : appendNew (appendNew list items) items = appendNew list items :=
          appendNew_of_alike fun item mem => any_alike_appendNew self mem
        simp only [mergeValue, if_pos additive, again]
      · simp only [mergeValue, if_neg additive]
    all_goals exact replaced
  | obj members ih =>
    have replaced : mergeValue key (some (.obj members)) (.obj members) = .obj members :=
      mergeValue_self unique key
    obtain ⟨nodup, unique⟩ := hasUniqueKeys_obj.1 unique
    rcases old? with _ | (_ | _ | _ | _ | _ | base)
    case some.obj =>
      simp only [mergeValue]
      rw [merge_eq_self fun entry mem => ?_]
      refine ⟨mergeValue entry.1 (Entries.get? entry.1 base) entry.2, ?_,
        ih entry mem (unique entry mem) _ _⟩
      rw [get?_merge nodup, Entries.get?_of_mem nodup mem]
    all_goals exact replaced

/-- Keys that lead to an object in both lead to the merge of the two. -/
theorem within?_merge {keys : List String} {inner new : List (String × Json)}
    (unique : (obj update).hasUniqueKeys = true)
    (inBase : (obj base).within? keys = some (.obj inner))
    (inUpdate : (obj update).within? keys = some (.obj new)) :
    (obj (merge base update)).within? keys = some (.obj (merge inner new)) := by
  induction keys generalizing base update with
  | nil =>
    cases inBase
    cases inUpdate
    rfl
  | cons key keys ih =>
    rw [within?, Option.bind_eq_some_iff] at inBase inUpdate
    obtain ⟨old, found, inBase⟩ := inBase
    obtain ⟨value, found', inUpdate⟩ := inUpdate
    have inObject : ∀ {value : Json} {fields : List (String × Json)},
        value.within? keys = some (.obj fields) → ∃ members, value = .obj members := by
      intro value fields h
      cases keys <;> cases value <;> simp_all [within?]
    obtain ⟨base', rfl⟩ := inObject inBase
    obtain ⟨update', rfl⟩ := inObject inUpdate
    rw [within?, get?_merge (hasUniqueKeys_obj.1 unique).1, found', found, Option.bind_some]
    exact ih (hasUniqueKeys_of_get? unique found') inBase inUpdate

/-- **Merging is idempotent and loses nothing.**  Let two configurations have unique keys.

* A configuration is merged over itself, or over what it has been merged over, without a change.
* Keys, one inside the other, that lead to an object in both lead to an object of the merge.  Its
  keys are those of the base and then the new ones of the update, each in their order.  Under the
  keys that are not in the update it has the values of the base.  Where it has an additive key
  with a list in both, the elements of the update are joined to the list of the base. -/
theorem merge_lossless (unique : (obj base).hasUniqueKeys = true)
    (unique' : (obj update).hasUniqueKeys = true) :
    merge base base = base ∧ merge (merge base update) update = merge base update ∧
      ∀ keys inner new, (obj base).within? keys = some (.obj inner) →
        (obj update).within? keys = some (.obj new) →
        ∃ merged, (obj (merge base update)).within? keys = some (.obj merged) ∧
          Entries.keys merged =
            Entries.keys inner ++ (Entries.keys new).filter (· ∉ Entries.keys inner) ∧
          (∀ key, Entries.get? key new = none →
            Entries.get? key merged = Entries.get? key inner) ∧
          ∀ key ∈ additiveKeys, ∀ list items, Entries.get? key inner = some (.arr list) →
            Entries.get? key new = some (.arr items) →
            ∃ joined, Entries.get? key merged = some (.arr joined) ∧
              JoinsNew list items joined := by
  have self : Json.obj (merge base base) = .obj base := by
    simpa only [mergeValue] using mergeValue_self unique ""
  have again : Json.obj (merge (merge base update) update) = .obj (merge base update) := by
    simpa only [mergeValue] using mergeValue_mergeValue unique' "" (some (.obj base))
  refine ⟨Json.obj.inj self, Json.obj.inj again, fun keys inner new inBase inUpdate => ?_⟩
  have nodup : (Entries.keys new).Nodup :=
    (hasUniqueKeys_obj.1 (hasUniqueKeys_within? unique' inUpdate)).1
  refine ⟨merge inner new, within?_merge unique' inBase inUpdate, keys_merge nodup, ?_, ?_⟩
  · intro key absent
    rw [get?_merge nodup, absent]
  · intro key additive list items found found'
    refine ⟨appendNew list items, ?_, joinsNew_appendNew list items⟩
    rw [get?_merge nodup, found', found]
    simp only [mergeValue, if_pos additive]

/-- A configuration with a list of ignored names, also inside a table. -/
def listedBase : List (String × Json) := [
  ("ignore_prefixes", .arr [.str "A", .int 1]),
  ("notes", .obj [("ignore_prefixes", .arr [.int 0]), ("by", .str "me")])]

/-- An update of both lists, with elements that are alike to others. -/
def listedUpdate : List (String × Json) := [
  ("notes", .obj [("at", .null), ("ignore_prefixes", .arr [.bool false, .arr [.bool true]])]),
  ("ignore_prefixes", .arr [.bool true, .str "B", .obj [("x", .int 0)], .obj [("x", .bool false)]])]

/-- Elements that are alike to others are left out at both depths, and the merge is stable. -/
theorem merge_lossless_listed :
    merge listedBase listedUpdate = [
        ("ignore_prefixes", .arr [.str "A", .int 1, .str "B", .obj [("x", .int 0)]]),
        ("notes", .obj [
          ("ignore_prefixes", .arr [.int 0, .arr [.bool true]]),
          ("by", .str "me"),
          ("at", .null)])] ∧
      merge (merge listedBase listedUpdate) listedUpdate = merge listedBase listedUpdate ∧
      ∃ merged, (obj (merge listedBase listedUpdate)).within? ["notes"] = some (.obj merged) ∧
        Entries.keys merged = ["ignore_prefixes", "by", "at"] ∧
        ∃ joined, Entries.get? "ignore_prefixes" merged = some (.arr joined) ∧
          JoinsNew [.int 0] [.bool false, .arr [.bool true]] joined := by
  have unique : (obj listedBase).hasUniqueKeys = true := by decide +kernel
  have unique' : (obj listedUpdate).hasUniqueKeys = true := by decide +kernel
  obtain ⟨-, again, inside⟩ := merge_lossless unique unique'
  obtain ⟨merged, found, keys, -, lists⟩ := inside ["notes"] _ _ rfl rfl
  refine ⟨rfl, again, merged, found, keys.trans (by decide +kernel), ?_⟩
  exact lists "ignore_prefixes" (by decide) _ _ rfl rfl

end Config
end AmbientDecl
