/- # What a fingerprint depends on

The text that is digested for a configuration is the canonical text of its part under some keys, or
of the whole.  Sorting brings the members of every object into the one order that they have by key
(`Json.reordered_iff`), and what is written on one line is read back (`Json.read?_oneLine`).  So
this text is the same for two configurations just when they hold the same there, up to the order of
keys at every depth (`Config.canonicalText_eq_iff`): nothing is left out of it, and no two contents
run together in it.
-/

import AmbientDecl.Config.Fingerprint
import AmbientDecl.Proofs.Json.ReadBack
import AmbientDecl.Proofs.Json.Reordered

namespace AmbientDecl

namespace Json

variable {value other : Json}

/-- Values with unique keys that are written alike on one line are equal. -/
theorem oneLine_inj (unique : value.hasUniqueKeys = true) (unique' : other.hasUniqueKeys = true) :
    value.oneLine = other.oneLine ↔ value = other := by
  refine ⟨fun same => ?_, congrArg oneLine⟩
  have read := read?_oneLine unique
  rw [same, read?_oneLine unique'] at read
  exact (Option.some.inj read).symm

/-- **The canonical text of a value is its content**, up to the order of members. -/
theorem canonical_eq_iff (unique : value.hasUniqueKeys = true)
    (unique' : other.hasUniqueKeys = true) :
    value.canonical = other.canonical ↔ Reordered value other := by
  rw [canonical, canonical, reordered_iff unique unique',
    oneLine_inj (hasUniqueKeys_sorted unique) (hasUniqueKeys_sorted unique')]

end Json

namespace Config

open Json

variable {config other : List (String × Json)}

/-- What is digested of a configuration: its part under some keys, or the whole. -/
def selected (config : List (String × Json)) : Option (List String) → Json
  | some keys => .obj (restrict config keys)
  | none => .obj config

theorem canonicalText_eq_canonical (config : List (String × Json)) (keys? : Option (List String)) :
    canonicalText config keys? = (selected config keys?).canonical := by
  cases keys? <;> rfl

/-- A part of a configuration has unique keys if the whole has. -/
theorem hasUniqueKeys_selected (unique : (Json.obj config).hasUniqueKeys = true)
    (keys? : Option (List String)) : (selected config keys?).hasUniqueKeys = true := by
  cases keys? with
  | none => exact unique
  | some keys =>
    obtain ⟨nodup, unique⟩ := hasUniqueKeys_obj.1 unique
    have part : (restrict config keys).Sublist config := List.filter_sublist
    exact hasUniqueKeys_obj.2 ⟨nodup.sublist (part.map _), fun entry mem =>
      unique entry (part.subset mem)⟩

/-- **The digested text is the content of the configuration.**  It is the same for two
configurations just when their parts under the given keys, or the wholes, are equal up to the order
of keys at every depth.  A truth value is never equal to a number there, nor a number to a text. -/
theorem canonicalText_eq_iff (unique : (Json.obj config).hasUniqueKeys = true)
    (unique' : (Json.obj other).hasUniqueKeys = true) :
    (∀ keys?, canonicalText config keys? = canonicalText other keys? ↔
      Reordered (selected config keys?) (selected other keys?)) ∧
    (∀ b n, ¬ Reordered (.bool b) (.int n) ∧ ¬ Reordered (.int n) (.bool b)) ∧
    ∀ n text, ¬ Reordered (.int n) (.str text) ∧ ¬ Reordered (.str text) (.int n) := by
  refine ⟨fun keys? => ?_, fun b n => ?_, fun n text => ?_⟩
  · rw [canonicalText_eq_canonical, canonicalText_eq_canonical]
    exact canonical_eq_iff (hasUniqueKeys_selected unique keys?)
      (hasUniqueKeys_selected unique' keys?)
  · constructor <;> simp [Reordered]
  · constructor <;> simp [Reordered]

/-- A configuration with a table in a table, a text that is escaped and a truth value. -/
def nestedConfig : List (String × Json) :=
  [("b", .obj [("y", .arr [.bool true, .null]), ("x", .str "\"𝄞")]), ("a", .int 1)]

/-- The same with its keys in another order at both depths. -/
def turnedConfig : List (String × Json) :=
  [("a", .int 1), ("b", .obj [("x", .str "\"𝄞"), ("y", .arr [.bool true, .null])])]

/-- The same with a number in place of the truth value. -/
def countedConfig : List (String × Json) :=
  [("a", .int 1), ("b", .obj [("x", .str "\"𝄞"), ("y", .arr [.int 1, .null])])]

theorem canonicalText_eq_iff_nested :
    (Json.obj nestedConfig).hasUniqueKeys = true ∧ (Json.obj turnedConfig).hasUniqueKeys = true ∧
    (Json.obj countedConfig).hasUniqueKeys = true ∧
    Reordered (selected nestedConfig none) (selected turnedConfig none) ∧
    ¬ Reordered (selected nestedConfig (some ["b"])) (selected countedConfig (some ["b"])) ∧
    Reordered (selected nestedConfig (some ["a"])) (selected countedConfig (some ["a"])) := by
  have unique : (Json.obj nestedConfig).hasUniqueKeys = true := by decide +kernel
  have unique' : (Json.obj turnedConfig).hasUniqueKeys = true := by decide +kernel
  have unique'' : (Json.obj countedConfig).hasUniqueKeys = true := by decide +kernel
  have turned : canonicalText nestedConfig none = canonicalText turnedConfig none := by
    decide +kernel
  have counted : canonicalText nestedConfig (some ["b"]) ≠
      canonicalText countedConfig (some ["b"]) := by decide +kernel
  have others : canonicalText nestedConfig (some ["a"]) =
      canonicalText countedConfig (some ["a"]) := by decide +kernel
  refine ⟨unique, unique', unique'', ?_, fun same => counted ?_, ?_⟩
  · exact ((canonicalText_eq_iff unique unique').1 none).1 turned
  · exact ((canonicalText_eq_iff unique unique'').1 (some ["b"])).2 same
  · exact ((canonicalText_eq_iff unique unique'').1 (some ["a"])).1 others

end Config
end AmbientDecl
