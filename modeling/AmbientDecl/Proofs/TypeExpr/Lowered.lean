/- # Lowering never fails

A type is lowered to a text where every name in it is written as a text.
-/

import AmbientDecl.Proofs.Action.Except
import AmbientDecl.TypeExpr.Written

namespace AmbientDecl

namespace TypeExpr

/-- Names are written as texts. -/
structure Naming.IsText (naming : Naming) : Prop where
  alone : ∀ name, ∃ text, naming.alone name = .ok (.str text)
  withArguments : ∀ name, ∃ text, naming.withArguments name = .ok (.str text)

variable {naming : Naming}

theorem joined_map_str (texts : List String) :
    joined (texts.map .str) = .ok ("|".intercalate texts) := by
  rw [joined, Json.join?_map_str, ShapeFault.required_some]

mutual

/-- A type is lowered to a text where names are written as texts. -/
theorem exists_lower (h : naming.IsText) : (e : TypeExpr) → ∃ text, lower naming e = .ok (.str text)
  | name n => h.alone n
  | generic base args => by
    obtain ⟨texts, lowered⟩ := exists_lowerAll h args
    obtain ⟨reference, named⟩ := h.withArguments base
    rw [lower, lowered, bind_ok, joined_map_str, bind_ok, named]
    exact ⟨_, rfl⟩
  | union branches => by
    obtain ⟨texts, lowered⟩ := exists_lowerAll h branches
    rw [lower, lowered, bind_ok, joined_map_str]
    exact ⟨_, rfl⟩
  | array element => by
    obtain ⟨text, lowered⟩ := exists_lower h element
    rw [lower, lowered, bind_ok, arrayOf, TypeText.branchesOf?_str]
    exact ⟨_, rfl⟩
  | variadic inner => exists_lower h inner

theorem exists_lowerAll (h : naming.IsText) :
    (es : List TypeExpr) → ∃ texts : List String, lowerAll naming es = .ok (texts.map .str)
  | [] => ⟨[], rfl⟩
  | e :: rest => by
    obtain ⟨text, lowered⟩ := exists_lower h e
    obtain ⟨texts, lowered'⟩ := exists_lowerAll h rest
    rw [lowerAll, lowered, bind_ok, lowered']
    exact ⟨text :: texts, rfl⟩

end

end TypeExpr

theorem WrittenType.exists_lower {naming : TypeExpr.Naming} (h : naming.IsText)
    (written : WrittenType) : ∃ text, written.lower naming = .ok (.str text) := by
  cases written with
  | absent => exact ⟨_, rfl⟩
  | expression e => exact TypeExpr.exists_lower h e
  | shape interior => exact ⟨_, rfl⟩
  | unreadable error => exact ⟨_, rfl⟩

end AmbientDecl
