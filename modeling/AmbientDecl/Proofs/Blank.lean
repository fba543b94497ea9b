/- # Trimmed texts

A text without blanks at its ends is trimmed already, and so is every trimmed text.  Blanks before a
text are left out, and what comes after a trimmed text is trimmed at its end only (`trim_append`).
-/

import AmbientDecl.Text.Blank
import Mathlib.Data.List.DropRight

namespace AmbientDecl
namespace Text

variable {cs : List Char}

/-- Trimming the end leaves out the longest trailing run of blanks. -/
theorem trimEnd_eq_rdropWhile (cs : List Char) : trimEnd cs = cs.rdropWhile isBlank := rfl

theorem trimStart_eq_self_iff : trimStart cs = cs ↔ ∀ c ∈ cs.head?, isBlank c = false := by
  cases cs with
  | nil => simp [trimStart]
  | cons c cs =>
    have same : trimStart (c :: cs) = c :: cs ↔ _ := List.dropWhile_eq_self_iff
    simpa using same

theorem trimEnd_eq_self_iff : trimEnd cs = cs ↔ ∀ c ∈ cs.getLast?, isBlank c = false := by
  rw [trimEnd_eq_rdropWhile, List.rdropWhile_eq_self_iff]
  cases cs with
  | nil => simp
  | cons c cs => simp [List.getLast?_eq_some_getLast (List.cons_ne_nil c cs)]

/-- A text without blanks at its ends is trimmed. -/
theorem trim_eq_self (start : ∀ c ∈ cs.head?, isBlank c = false)
    (ends : ∀ c ∈ cs.getLast?, isBlank c = false) : trim cs = cs := by
  rw [trim, trimStart_eq_self_iff.2 start, trimEnd_eq_self_iff.2 ends]

/-- A text without blanks is trimmed. -/
theorem trim_of_unbroken (h : ∀ c ∈ cs, isBlank c = false) : trim cs = cs :=
  trim_eq_self (fun c first => h c (List.mem_of_mem_head? first))
    fun c last => h c (List.mem_of_getLast? last)

/-- A trimmed text does not start with a blank. -/
theorem trimStart_trim (cs : List Char) : trimStart (trim cs) = trim cs := by
  have kept : trimStart (trimStart cs) = trimStart cs := List.dropWhile_idempotent _ _
  obtain ⟨blanks, same⟩ : trim cs <+: trimStart cs := List.rdropWhile_prefix isBlank _
  refine trimStart_eq_self_iff.2 fun c first => trimStart_eq_self_iff.1 kept c ?_
  rw [← same, List.head?_append, Option.mem_def.1 first]
  rfl

/-- A text that is trimmed twice is trimmed once. -/
theorem trim_trim (cs : List Char) : trim (trim cs) = trim cs := by
  rw [trim, trimStart_trim, trim, trimEnd_eq_rdropWhile, trimEnd_eq_rdropWhile]
  exact List.rdropWhile_idempotent _ _

/-- A trimmed text does not end with a blank. -/
theorem trimEnd_trim (cs : List Char) : trimEnd (trim cs) = trim cs :=
  List.rdropWhile_idempotent _ _

/-- A text is what is left of it with blanks around. -/
theorem exists_trim (cs : List Char) : ∃ before after, cs = before ++ trim cs ++ after ∧
    (∀ c ∈ before, isBlank c = true) ∧ ∀ c ∈ after, isBlank c = true := by
  have start : cs.takeWhile isBlank ++ trimStart cs = cs := List.takeWhile_append_dropWhile
  have ends : trim cs ++ (trimStart cs).rtakeWhile isBlank = trimStart cs :=
    List.rdropWhile_append_rtakeWhile
  refine ⟨cs.takeWhile isBlank, (trimStart cs).rtakeWhile isBlank, ?_,
    fun _ => List.mem_takeWhile_imp, fun _ => List.mem_rtakeWhile_imp⟩
  rw [List.append_assoc, ends, start]

/-- Blanks before a text are left out. -/
theorem trim_blanks_append (blanks : ∀ c ∈ cs, isBlank c = true) (more : List Char) :
    trim (cs ++ more) = trim more := by
  rw [trim, trim, trimStart, List.dropWhile_append_of_pos blanks, trimStart]

/-- What comes after a trimmed text is trimmed at its end. -/
theorem trim_append (trimmed : trim cs = cs) (some : cs ≠ []) (more : List Char) :
    trim (cs ++ more) = cs ++ trimEnd more := by
  have start : trimStart (cs ++ more) = cs ++ more := by
    obtain ⟨c, cs, rfl⟩ := List.exists_cons_of_ne_nil some
    have first := trimStart_eq_self_iff.1 (trimmed ▸ trimStart_trim (c :: cs)) c rfl
    exact trimStart_of_not_isBlank first _
  have ends : trimEnd cs = cs := trimmed ▸ trimEnd_trim cs
  rw [trim, start, trimEnd, List.reverse_append, List.dropWhile_append]
  split
  next all =>
    have nothing : trimEnd more = [] := by simpa [trimEnd] using all
    rw [nothing, List.append_nil]
    exact ends
  next => simp [trimEnd]

/-- Trimming the end leaves the start as it is. -/
theorem trimEnd_prefix (cs : List Char) : trimEnd cs <+: cs := List.rdropWhile_prefix _ _

end Text
end AmbientDecl
