/- # Types with a description

Documentation puts braces around a type and a description behind it.  Neither changes what the type
is lowered to (`TypeConverter.convert_described`): a type in braces is written as the type alone
(`WrittenType.ofText_braced`), and an expression is lowered without a report
(`TypeConverter.run_convert_of_expression`).
-/

import AmbientDecl.Proofs.Model.Conversions
import AmbientDecl.Proofs.TypeExpr.Around

namespace AmbientDecl
namespace TypeConverter

open TypeExpr

variable {c : TypeConverter} {a : Mention} {e : TypeExpr}

/-- A text that is written as an expression leaves the model as it is. -/
theorem run_convert_of_expression (written : WrittenType.ofText a.text = .expression e)
    (m : Model) :
    (c.convert a).run m = (Build.ofReading (e.lower (c.naming a.base))).run m := by
  have silent : m.hear a.text a.base = m := by rw [Model.hear, written]
  rw [convert, Build.run_lowerWith_eq, written, silent]
  rfl

/-- **Prose behind a type and braces around it change nothing.**  A text that is read as a type is
read so with any prose behind it that starts with a blank.  If the text stands on one line, then in
braces it is lowered to what it is lowered to without them, whatever comes behind the braces but a
closing brace on the same line; this leaves the model as it is, and where the tables of the
converter lead to texts, the answer is a text. -/
theorem convert_described :
    (∀ text e, read text = .ok e → ∀ more : String,
      (∀ ch ∈ more.toList.head?, Text.isBlank ch = true) → read (text ++ more) = .ok e) ∧
      ∀ text e, read text = .ok e → '\n' ∉ text.toList → ∀ more : String,
        '\x7d' ∉ more.toList.takeWhile (· ≠ '\n') →
          ∀ (c : TypeConverter) (base? : Option String) (m : Model),
            (c.convert ⟨"\x7b" ++ text ++ "\x7d" ++ more, base?⟩).run m =
                (c.convert ⟨text, base?⟩).run m ∧
              Build.after (c.convert ⟨text, base?⟩) m = m ∧
              (c.IsText → ∃ type, (c.convert ⟨text, base?⟩).run m = .ok (.str type) m) := by
  refine ⟨fun text e h more => read_append h, fun text e h line more unclosed c base? m => ?_⟩
  have alone := run_convert_of_expression (c := c) (a := ⟨text, base?⟩)
    (WrittenType.ofText_of_read h) m
  have braced := run_convert_of_expression (c := c) (a := ⟨"\x7b" ++ text ++ "\x7d" ++ more, base?⟩)
    (WrittenType.ofText_braced h line unclosed) m
  refine ⟨braced.trans alone.symm, ?_, fun isText => ?_⟩
  · rw [Build.after, alone]
    cases e.lower (c.naming (Mention.base ⟨text, base?⟩)) <;> rfl
  · obtain ⟨type, lowered⟩ := exists_lower (isText.naming (base?.getD "")) e
    refine ⟨type, alone.trans ?_⟩
    rw [Mention.base, lowered]
    rfl

/-- Braces stand in the prose inside of those around the type, and behind the first line break. -/
theorem convert_described_keys :
    read ("Id[]" ++ " of \x7busers\x7d") = .ok (array (name "Id")) ∧
      ((TypeConverter.mk (.obj [("Key", .str "string|number")]) none).convert
        ⟨"\x7b" ++ "Map<Id, Key> of \x7bkeys\x7d" ++ "\x7d" ++ " that are in use\nby \x7bId\x7d",
          some "App"⟩).run default = .ok (.str "Map<Id|string|number>") default := by
  have list : read "Id[]" = .ok (array (name "Id")) := by rfl
  have keys : read "Map<Id, Key> of \x7bkeys\x7d" =
      .ok (generic "Map" [name "Id", name "Key"]) := by rfl
  refine ⟨convert_described.1 _ _ list _ (by simp [Text.isBlank]), ?_⟩
  rw [(convert_described.2 _ _ keys (by simp) _ (by simp) _ _ _).1]
  rfl

end TypeConverter
end AmbientDecl
