/- # Tables of texts in a configuration

A configuration that has text tables (`Config.hasTextTables`) gives well-typed settings
(`Config.wellTyped_of_ofConfig`).  The default configuration has text tables, and it still has them
after an update with text tables is merged over it (`Config.hasTextTables_merge`): what comes into
such a table from the update is a text again (`Config.forall_mem_merge`).
-/

import AmbientDecl.Config.Default
import AmbientDecl.Config.Merge
import AmbientDecl.Proofs.Action.Except
import AmbientDecl.Proofs.Config.WellTyped

namespace AmbientDecl
namespace Config

variable {base update config : List (String × Json)} {key : String} {value : Json}

/-- The keys of the tables by which names are found and written. -/
def textTableKeys : List String :=
  ["namespace_aliases", "relative_name_overrides", "type_aliases"]

/-- Whether the tables of a configuration by which names are found and written lead to texts. -/
def hasTextTables (config : List (String × Json)) : Bool :=
  config.all fun entry => !textTableKeys.contains entry.1 || entry.2.isTextTable

theorem hasTextTables_iff : hasTextTables config = true ↔
    ∀ entry ∈ config, entry.1 ∈ textTableKeys → entry.2.isTextTable = true := by
  rw [hasTextTables, List.all_eq_true]
  refine forall₂_congr fun entry _ => ?_
  by_cases isTable : entry.1 ∈ textTableKeys <;> simp [isTable]

/-- What holds of the entries of a configuration holds of those of a merge if it passes from the
values that are merged to the one that they give. -/
theorem forall_mem_merge {P : String × Json → Prop} (first : ∀ entry ∈ base, P entry)
    (step : ∀ key value, (key, value) ∈ update → ∀ old?, (∀ old ∈ old?, P (key, old)) →
      P (key, mergeValue key old? value)) :
    ∀ entry ∈ merge base update, P entry := by
  induction update generalizing base with
  | nil =>
    rw [merge]
    exact first
  | cons entry rest ih =>
    obtain ⟨key, value⟩ := entry
    rw [merge]
    refine ih (fun entry mem => ?_) fun key value mem =>
      step key value (List.mem_cons_of_mem _ mem)
    rcases Entries.mem_put mem with rfl | mem
    · refine step key value List.mem_cons_self _ fun old there => first _ ?_
      exact Entries.mem_of_get? there
    · exact first entry mem

theorem isTextTable_obj {members : List (String × Json)} : (Json.obj members).isTextTable = true ↔
    ∀ entry ∈ members, entry.2.text?.isSome = true := by
  rw [Json.isTextTable, Json.table?_obj, Option.any_some, List.all_eq_true]

/-- A table of texts over a table of texts is one. -/
theorem isTextTable_mergeValue (other : key ∉ additiveKeys) (new : value.isTextTable = true)
    {old? : Option Json} (old : ∀ old ∈ old?, old.isTextTable = true) :
    (mergeValue key old? value).isTextTable = true := by
  unfold mergeValue
  split
  · split
    · -- Both are tables: what comes into the one of the base is a text.
      refine isTextTable_obj.2 (forall_mem_merge (isTextTable_obj.1 (old _ rfl)) ?_)
      intro key value mem _ _
      obtain ⟨text, same⟩ := Option.isSome_iff_exists.1 (isTextTable_obj.1 new _ mem)
      obtain rfl : value = .str text := Json.text?_eq_some same
      rfl
    · exact new
  · split
    · rwa [if_neg other]
    · exact new
  · exact new

/-- **Merging keeps the tables of texts.** -/
theorem hasTextTables_merge (old : hasTextTables base = true) (new : hasTextTables update = true) :
    hasTextTables (merge base update) = true := by
  rw [hasTextTables_iff] at old new ⊢
  have apart : ∀ key ∈ textTableKeys, key ∉ additiveKeys := by decide
  refine forall_mem_merge old fun key value mem old? there isTable => ?_
  exact isTextTable_mergeValue (apart key isTable) (new _ mem isTable) fun old mem =>
    there old mem isTable

theorem hasTextTables_default : hasTextTables default = true := by decide +kernel

/-- Another entry changes nothing about the tables. -/
theorem hasTextTables_put (h : hasTextTables config = true) (other : key ∉ textTableKeys)
    (value : Json) : hasTextTables (Entries.put key value config) = true := by
  rw [hasTextTables_iff] at h ⊢
  intro entry mem isTable
  rcases Entries.mem_put mem with rfl | mem
  · exact absurd isTable other
  · exact h entry mem isTable

theorem isTextTable_field (h : hasTextTables config = true) (isTable : key ∈ textTableKeys) :
    (Json.field config key).isTextTable = true := by
  rw [Json.field]
  cases found : Entries.get? key config with
  | none => rfl
  | some value => exact hasTextTables_iff.1 h _ (Entries.mem_of_get? found) isTable

/-- **A configuration with tables of texts gives well-typed settings.** -/
theorem wellTyped_of_ofConfig {settings : Settings} (h : hasTextTables config = true)
    (read : Settings.ofConfig config = .ok settings) : settings.WellTyped := by
  obtain ⟨builtInTypes, -, read⟩ := bind_eq_ok.1 read
  obtain rfl := Except.ok.inj read
  exact ⟨isTextTable_field h (by decide), isTextTable_field h (by decide),
    isTextTable_field h (by decide)⟩

end Config
end AmbientDecl
