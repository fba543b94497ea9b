/- # Quoted names

A member whose name is no identifier is declared by a literal.  Inside it a backslash stands for the
character after it, so the literal ends at the first quote that no backslash stands for
(`literal?`).  The literal of a name ends where it was meant to end, whatever follows it, and holds
the name (`literal?_memberName`).  An identifier does not start with a quote, so it is not taken for
a literal, and no two names are written alike (`memberName_lossless`).
-/

import AmbientDecl.Output.Signature

namespace AmbientDecl
namespace Signature

/-- What a literal holds and what stands behind it, where its opening quote has been read. -/
def literalRest? : List Char → Option (List Char × List Char)
  | [] => none
  | '\x27' :: rest => some ([], rest)
  | '\\' :: c :: rest => (literalRest? rest).map fun (inside, behind) => (c :: inside, behind)
  | c :: rest => (literalRest? rest).map fun (inside, behind) => (c :: inside, behind)

/-- What the literal that a text starts with holds and what stands behind it. -/
def literal? : List Char → Option (List Char × List Char)
  | '\x27' :: rest => literalRest? rest
  | _ => none

/-- The name that a text declares: what its literal holds, or else the text itself. -/
def nameOf (text : String) : String :=
  match literal? text.toList with
  | some (inside, _) => String.ofList inside
  | none => text

/-- A character that is not escaped stands for itself. -/
theorem literalRest?_cons {c : Char} (plain : ¬ (c = '\\' ∨ c = '\x27')) (rest : List Char) :
    literalRest? (c :: rest) =
      (literalRest? rest).map fun (inside, behind) => (c :: inside, behind) := by
  rw [literalRest?]
  · rintro rfl
    exact plain (.inr rfl)
  · rintro - - rfl
    exact fun _ => plain (.inl rfl)

/-- **Escaped characters are read back,** and the quote behind them is the first one that closes the
literal. -/
theorem literalRest?_escaped (cs behind : List Char) :
    literalRest? (cs.flatMap escapedChar ++ '\x27' :: behind) = some (cs, behind) := by
  induction cs with
  | nil => rfl
  | cons c cs ih =>
    rw [List.flatMap_cons, List.append_assoc, escapedChar]
    split
    · rename_i escaped
      rcases escaped with rfl | rfl
      · simp [literalRest?, ih]
      · simp [literalRest?, ih]
    · rename_i plain
      rw [List.singleton_append, literalRest?_cons plain, ih]
      rfl

/-- An identifier starts with a character that an identifier may start with. -/
theorem isIdentifierStart_of_isIdentifier {name : List Char} (h : isIdentifier name = true) :
    ∃ c rest, name = c :: rest ∧ isIdentifierStart c = true := by
  cases name with
  | nil => cases h
  | cons c rest =>
    rw [isIdentifier, Bool.and_eq_true] at h
    exact ⟨c, rest, rfl, h.1⟩

/-- An identifier starts no literal. -/
theorem head?_ne_quote_of_isIdentifier {name : List Char} (h : isIdentifier name = true) :
    name.head? ≠ some '\x27' ∧ name.head? ≠ some '\x22' := by
  obtain ⟨c, rest, rfl, start⟩ := isIdentifierStart_of_isIdentifier h
  have single : isIdentifierStart '\x27' = false := by decide
  have double : isIdentifierStart '\x22' = false := by decide
  rw [List.head?_cons]
  refine ⟨fun same => ?_, fun same => ?_⟩
  · rw [Option.some.inj same, single] at start
    cases start
  · rw [Option.some.inj same, double] at start
    cases start

theorem literal?_eq_none {text : List Char} (unquoted : text.head? ≠ some '\x27') :
    literal? text = none := by
  unfold literal?
  split
  · exact absurd rfl unquoted
  · rfl

/-- The literal of a name holds the name, and what follows the name stands behind it. -/
theorem literal?_memberName {name : String} (quoted : isIdentifier name.toList = false)
    (behind : List Char) :
    literal? ((memberName name).toList ++ behind) = some (name.toList, behind) := by
  rw [memberName, if_neg (by rw [quoted]; decide), String.toList_ofList, List.append_assoc,
    List.cons_append, literal?, List.singleton_append]
  exact literalRest?_escaped name.toList behind

/-- The name is read back from what is written for it. -/
theorem nameOf_memberName (name : String) : nameOf (memberName name) = name := by
  by_cases identifier : isIdentifier name.toList = true
  · have plain := literal?_eq_none (head?_ne_quote_of_isIdentifier identifier).1
    rw [memberName, if_pos identifier, nameOf, plain]
  · have whole := literal?_memberName (Bool.eq_false_iff.2 identifier) []
    rw [List.append_nil] at whole
    rw [nameOf, whole]
    exact String.ofList_toList

/-- **Quoting names is lossless.**  A name is written as it is, and then it starts with no quote, or
as a literal: read from its opening quote, with a backslash standing for the next character, the
first quote that closes it is its last character, whatever stands behind it, and it holds the name.
So different names are written differently. -/
theorem memberName_lossless :
    (∀ name : String,
      memberName name = name ∧
          name.toList.head? ≠ some '\x27' ∧ name.toList.head? ≠ some '\x22' ∨
        (memberName name).toList.head? = some '\x27' ∧
          (memberName name).toList.getLast? = some '\x27' ∧
          ∀ behind, literal? ((memberName name).toList ++ behind) = some (name.toList, behind)) ∧
      Function.Injective memberName := by
  refine ⟨fun name => ?_, Function.LeftInverse.injective nameOf_memberName⟩
  by_cases identifier : isIdentifier name.toList = true
  · exact .inl ⟨if_pos identifier, head?_ne_quote_of_isIdentifier identifier⟩
  · refine .inr ⟨?_, ?_, literal?_memberName (Bool.eq_false_iff.2 identifier)⟩
    · rw [memberName, if_neg identifier, String.toList_ofList]
      rfl
    · rw [memberName, if_neg identifier, String.toList_ofList, List.getLast?_concat]

/-- A name with a backslash before a quote. -/
example : memberName "a\\'b" = "'a\\\\\\'b'" := by decide

end Signature
end AmbientDecl
