/- # Expressions that can be read

An expression is well formed when its names are names, every union has several branches and every
generic type has arguments (`WellFormed`), and so is every expression that a text is read as
(`wellFormed_of_read`).  Being readable is less, for a union may have a single branch (`Readable`);
an expression keeps this when expressions that have it are put in the place of its names.
-/

import AmbientDecl.Proofs.TypeExpr.Reading
import AmbientDecl.Proofs.TypeExpr.Tiling

namespace AmbientDecl
namespace TypeExpr

/-- The names are texts of their pattern that do not end in a dot, a union has two branches or more,
and a generic type has an argument. -/
inductive WellFormed : TypeExpr → Prop where
  | name {n : String} (pattern : Token.Pattern .name n.toList)
      (undotted : n.toList.getLast? ≠ some '.') : WellFormed (name n)
  | generic {base : String} {args : List TypeExpr} (pattern : Token.Pattern .name base.toList)
      (undotted : base.toList.getLast? ≠ some '.') (some : args ≠ [])
      (each : ∀ e ∈ args, WellFormed e) : WellFormed (generic base args)
  | union {branches : List TypeExpr} (several : 2 ≤ branches.length)
      (each : ∀ e ∈ branches, WellFormed e) : WellFormed (union branches)
  | array {element : TypeExpr} (wellFormed : WellFormed element) : WellFormed (array element)
  | variadic {inner : TypeExpr} (wellFormed : WellFormed inner) : WellFormed (variadic inner)

/-- The names are names, and nothing that has parts is without them. -/
inductive Readable : TypeExpr → Prop where
  | name {n : String} (isName : Token.IsName n.toList) : Readable (name n)
  | generic {base : String} {args : List TypeExpr} (isName : Token.IsName base.toList)
      (some : args ≠ []) (each : ∀ e ∈ args, Readable e) : Readable (generic base args)
  | union {branches : List TypeExpr} (some : branches ≠ []) (each : ∀ e ∈ branches, Readable e) :
      Readable (union branches)
  | array {element : TypeExpr} (readable : Readable element) : Readable (array element)
  | variadic {inner : TypeExpr} (readable : Readable inner) : Readable (variadic inner)

/-- The trees that a phrase stands for are well formed. -/
def Phrase.WellFormed : Phrase → Prop
  | union _ es | arguments es => es ≠ [] ∧ ∀ e ∈ es, e.WellFormed
  | branch e | operand e | atom e => e.WellFormed

/-- The union of well-formed branches is well formed. -/
theorem wellFormed_ofBranches {es : List TypeExpr} (some : es ≠ [])
    (each : ∀ e ∈ es, e.WellFormed) : (ofBranches es).WellFormed := by
  match es with
  | [] => exact absurd rfl some
  | [e] => exact each e List.mem_cons_self
  | e :: e' :: rest => exact .union (by simp) each

theorem wellFormed_concat {es : List TypeExpr} {e : TypeExpr}
    (h : es ≠ [] ∧ ∀ e ∈ es, e.WellFormed) (h' : e.WellFormed) :
    es ++ [e] ≠ [] ∧ ∀ e' ∈ es ++ [e], e'.WellFormed :=
  ⟨by simp, List.forall_mem_append.2 ⟨h.2, List.forall_mem_singleton.2 h'⟩⟩

/-- A phrase is well formed when its names are names. -/
theorem Derives.wellFormed {phrase : Phrase} {ts : List Token} (h : Derives phrase ts)
    (names : ∀ token ∈ ts, token.kind = .name → Token.IsName token.text.toList) :
    phrase.WellFormed := by
  induction h with
  | single _ ih => exact ⟨by simp, List.forall_mem_singleton.2 (ih names)⟩
  | bar _ _ _ _ _ ih ih' =>
    exact wellFormed_concat (ih fun t mem => names t (by simp [mem]))
      (ih' fun t mem => names t (by simp [mem]))
  | argument _ _ ih =>
    have union := ih fun t mem => names t (by simp [mem])
    exact ⟨by simp, List.forall_mem_singleton.2 (wellFormed_ofBranches union.1 union.2)⟩
  | comma _ _ _ _ _ ih ih' =>
    have union := ih' fun t mem => names t (by simp [mem])
    exact wellFormed_concat (ih fun t mem => names t (by simp [mem]))
      (wellFormed_ofBranches union.1 union.2)
  | plain _ ih => exact ih names
  | ahead _ _ ih => exact .variadic (ih fun t mem => names t (by simp [mem]))
  | behind _ _ ih => exact .variadic (ih fun t mem => names t (by simp [mem]))
  | atom _ ih => exact ih names
  | array _ _ ih => exact .array (ih fun t mem => names t (by simp [mem]))
  | name kind =>
    obtain ⟨pattern, undotted⟩ := Token.isName_iff.1 (names _ (by simp) kind)
    exact .name pattern undotted
  | generic kind _ _ _ _ ih =>
    obtain ⟨pattern, undotted⟩ := Token.isName_iff.1 (names _ (by simp) kind)
    have args := ih fun t mem => names t (by simp [mem])
    exact .generic pattern undotted args.1 args.2
  | paren _ _ _ _ _ ih =>
    have union := ih fun t mem => names t (by simp [mem])
    exact wellFormed_ofBranches union.1 union.2

/-- **What a text is read as is well formed.** -/
theorem wellFormed_of_read {text : String} {e : TypeExpr} (h : read text = .ok e) :
    e.WellFormed := by
  obtain ⟨es, us, bar, prose, derives, rfl, _, _, tokens⟩ :=
    ofTokens_eq_ok_iff.1 (read_eq_ok_iff.1 h)
  have names : ∀ token ∈ us, token.kind = .name → Token.IsName token.text.toList := by
    intro token mem kind
    have scanned : token ∈ strippedTokens text := by simp [tokens, mem]
    exact Token.isName_of_scan scanned kind
  have union := derives.wellFormed names
  exact wellFormed_ofBranches union.1 union.2

theorem WellFormed.readable {e : TypeExpr} (h : e.WellFormed) : e.Readable := by
  induction h with
  | name pattern undotted => exact .name (Token.isName_iff.2 ⟨pattern, undotted⟩)
  | generic pattern undotted some _ ih =>
    exact .generic (Token.isName_iff.2 ⟨pattern, undotted⟩) some ih
  | union several _ ih =>
    exact .union (List.ne_nil_of_length_pos (Nat.lt_of_lt_of_le Nat.zero_lt_two several)) ih
  | array _ ih => exact .array ih
  | variadic _ ih => exact .variadic ih

/-- What a text is read as is readable. -/
theorem readable_of_read {text : String} {e : TypeExpr} (h : read text = .ok e) : e.Readable :=
  (wellFormed_of_read h).readable

end TypeExpr
end AmbientDecl
