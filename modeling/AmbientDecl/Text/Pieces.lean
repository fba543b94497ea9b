/- # Pieces of a text

A text cut at a lead, at the last occurrence of a character, or at the first empty line, and the
test whether a text occurs in another one.
-/

namespace AmbientDecl
namespace Text

/-- What follows `lead` in a text that starts with it. -/
def afterLead? : (lead text : List Char) → Option (List Char)
  | [], cs => some cs
  | _ :: _, [] => none
  | l :: ls, c :: cs => if l = c then afterLead? ls cs else none

theorem afterLead?_eq_some_iff {lead text rest : List Char} :
    afterLead? lead text = some rest ↔ text = lead ++ rest := by
  induction lead generalizing text with
  | nil => simp [afterLead?]
  | cons l ls ih =>
    cases text with
    | nil => simp [afterLead?]
    | cons c cs =>
      by_cases h : l = c
      · simp [afterLead?, h, ih]
      · simp [afterLead?, h, Ne.symm h]

/-- What precedes the last occurrence of `mark`. -/
def beforeLast? (mark : Char) : List Char → Option (List Char)
  | [] => none
  | c :: cs =>
    match beforeLast? mark cs with
    | some before => some (c :: before)
    | none => if c = mark then some [] else none

theorem beforeLast?_eq_none_iff {mark : Char} {text : List Char} :
    beforeLast? mark text = none ↔ mark ∉ text := by
  induction text with
  | nil => simp [beforeLast?]
  | cons c cs ih =>
    unfold beforeLast?
    cases last : beforeLast? mark cs with
    | some before => simp [mt ih.2 (by simp [last])]
    | none => simp [ih.1 last, eq_comm]

theorem beforeLast?_eq_some_iff {mark : Char} {text before : List Char} :
    beforeLast? mark text = some before ↔
      ∃ after, text = before ++ mark :: after ∧ mark ∉ after := by
  constructor
  · intro h
    induction text generalizing before with
    | nil => cases h
    | cons c cs ih =>
      unfold beforeLast? at h
      split at h
      next last =>
        cases h
        obtain ⟨after, rfl, none⟩ := ih last
        exact ⟨after, rfl, none⟩
      next last =>
        split at h
        next same =>
          cases h
          exact ⟨cs, by rw [same]; rfl, beforeLast?_eq_none_iff.1 last⟩
        next => cases h
  · rintro ⟨after, rfl, none⟩
    induction before with
    | nil => simp [beforeLast?, beforeLast?_eq_none_iff.2 none]
    | cons c before ih => simp [beforeLast?, ih]

/-- Line ends written as a carriage return and a line feed become a line feed. -/
def plainLineEnds : List Char → List Char
  | [] => []
  | '\r' :: '\n' :: cs => '\n' :: plainLineEnds cs
  | c :: cs => c :: plainLineEnds cs

/-- What precedes the first two line feeds in a row, or the whole text. -/
def beforeEmptyLine : List Char → List Char
  | [] => []
  | '\n' :: '\n' :: _ => []
  | c :: cs => c :: beforeEmptyLine cs

/-- Whether `part` stands somewhere in a text. -/
def occursIn (part : List Char) : List Char → Bool
  | [] => part.isEmpty
  | c :: cs => part.isPrefixOf (c :: cs) || occursIn part cs

end Text
end AmbientDecl
