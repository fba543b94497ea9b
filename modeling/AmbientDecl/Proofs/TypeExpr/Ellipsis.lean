/- # Ellipses and variadic types

The tokens of a phrase hold an ellipsis exactly if its tree has a variadic type
(`Derives.hasEllipsis_iff`), for the reader neither skips an ellipsis nor makes one up.  What comes
after the expression that tokens begin with is left over (`Leaves`), and there is one way only to
leave something over (`Leaves.unique`).  So a text that is read as an expression holds an ellipsis
exactly if the expression has a variadic type or an ellipsis is left over
(`Leaves.hasEllipsis_iff`).
-/

import AmbientDecl.Proofs.TypeExpr.Boundary
import AmbientDecl.Proofs.TypeExpr.Reading

namespace AmbientDecl
namespace TypeExpr

open Token

variable {free : Bool} {e e' : TypeExpr} {es : List TypeExpr} {gap ts us rest rest' : List Token}
  {phrase : Phrase} {token : Token}

/-- One of the tokens is an ellipsis. -/
def HasEllipsis (ts : List Token) : Prop := ∃ token ∈ ts, token.kind = .ellipsis

@[simp] theorem hasEllipsis_append : HasEllipsis (ts ++ us) ↔ HasEllipsis ts ∨ HasEllipsis us := by
  simp [HasEllipsis, or_and_right, exists_or]

@[simp] theorem hasEllipsis_cons :
    HasEllipsis (token :: ts) ↔ token.kind = .ellipsis ∨ HasEllipsis ts := by
  simp [HasEllipsis]

@[simp] theorem not_hasEllipsis_nil : ¬ HasEllipsis [] := by
  simp [HasEllipsis]

theorem Gap.not_hasEllipsis (h : Gap free gap) : ¬ HasEllipsis gap := by
  rintro ⟨token, mem, kind⟩
  rw [(h token mem).2] at kind
  cases kind

theorem Dangling.not_hasEllipsis (h : Dangling ts) : ¬ HasEllipsis ts := by
  rcases h with rfl | ⟨bar, kind, rfl⟩ <;> simp [HasEllipsis, *]

theorem anyVariadic_eq_any (es : List TypeExpr) : anyVariadic es = es.any hasVariadic := by
  induction es with
  | nil => rfl
  | cons e rest ih => rw [anyVariadic, ih, List.any_cons]

theorem hasVariadic_ofBranches (es : List TypeExpr) :
    (ofBranches es).hasVariadic = es.any hasVariadic := by
  match es with
  | [] => rfl
  | [e] => simp [ofBranches]
  | e :: e' :: rest =>
    have several : ofBranches (e :: e' :: rest) = union (e :: e' :: rest) := rfl
    rw [several, hasVariadic, anyVariadic_eq_any]

/-- A variadic type stands in the trees of a phrase. -/
def Phrase.HasVariadic : Phrase → Prop
  | union _ es | arguments es => es.any hasVariadic = true
  | branch e | operand e | atom e => e.hasVariadic = true

/-- **The tokens of a phrase hold an ellipsis exactly if its tree has a variadic type.** -/
theorem Derives.hasEllipsis_iff (h : Derives phrase ts) :
    HasEllipsis ts ↔ phrase.HasVariadic := by
  -- the marks of the grammar are no ellipses, except the two that make a branch variadic
  induction h with
  | single _ ih => simpa [Phrase.HasVariadic] using ih
  | bar _ left kind right _ ih ih' =>
    simp [left.not_hasEllipsis, right.not_hasEllipsis, kind, ih, ih', Phrase.HasVariadic]
  | argument _ right ih =>
    simp [right.not_hasEllipsis, ih, Phrase.HasVariadic, hasVariadic_ofBranches]
  | comma _ kind left _ right ih ih' =>
    simp [left.not_hasEllipsis, right.not_hasEllipsis, kind, ih, ih', Phrase.HasVariadic,
      hasVariadic_ofBranches]
  | plain _ ih => exact ih
  | ahead kind => simp [kind, Phrase.HasVariadic, hasVariadic]
  | behind _ kind => simp [kind, Phrase.HasVariadic, hasVariadic]
  | atom _ ih => exact ih
  | array _ kind ih => simp [kind, ih, Phrase.HasVariadic, hasVariadic]
  | name kind => simp [kind, Phrase.HasVariadic, hasVariadic]
  | generic kind opens left _ closes ih =>
    simp [left.not_hasEllipsis, kind, opens, closes, ih, Phrase.HasVariadic, hasVariadic,
      anyVariadic_eq_any]
  | paren opens left _ right closes ih =>
    simp [left.not_hasEllipsis, right.not_hasEllipsis, opens, closes, ih, Phrase.HasVariadic,
      hasVariadic_ofBranches]

/-- The tokens are those of an expression, perhaps a bar after it, and prose that is left over. -/
def Leaves (ts : List Token) (e : TypeExpr) (rest : List Token) : Prop :=
  ∃ es us bar, Derives (.union false es) us ∧ ofBranches es = e ∧ Dangling bar ∧ Prose rest ∧
    ts = us ++ bar ++ rest

theorem beginsWith_iff_exists_leaves : BeginsWith ts e ↔ ∃ rest, Leaves ts e rest := by
  constructor
  · rintro ⟨es, us, bar, rest, h⟩
    exact ⟨rest, es, us, bar, h⟩
  · rintro ⟨rest, es, us, bar, h⟩
    exact ⟨es, us, bar, rest, h⟩

/-- A reader that is ready for prose is ready nowhere later. -/
theorem State.Ready.eq_nil {state last : State} (h : Ready es state) (prose : Prose (ts ++ rest))
    (steps : Steps state ts last) (reading : ∀ e, last ≠ finished e) : ts = [] := by
  cases steps with
  | nil => rfl
  | @cons _ next _ token ts first later =>
    rw [h.prose token (prose token rfl)] at first
    cases first
    have same : last = finished (ofBranches es) := later.unique (steps_finished _ ts)
    exact absurd same (reading _)

/-- **There is one way only to leave something over.** -/
theorem Leaves.unique (h : Leaves ts e rest) (h' : Leaves ts e' rest') : rest = rest' := by
  obtain ⟨es, us, bar, derives, -, dangling, prose, rfl⟩ := h
  obtain ⟨es', us', bar', derives', -, dangling', prose', same⟩ := h'
  obtain ⟨state, steps, ready⟩ := derives.ready dangling
  obtain ⟨state', steps', ready'⟩ := derives'.ready dangling'
  rcases List.append_eq_append_iff.1 same with ⟨more, longer, rfl⟩ | ⟨more, longer, rfl⟩
  · rw [longer] at steps'
    rw [ready.eq_nil prose (steps.split steps') ready'.ne_finished, List.nil_append]
  · rw [longer] at steps
    rw [ready'.eq_nil prose' (steps'.split steps) ready.ne_finished, List.nil_append]

/-- An expression is marked where its tokens are, or where what it leaves over is. -/
theorem Leaves.hasEllipsis_iff (h : Leaves ts e rest) :
    HasEllipsis ts ↔ e.hasVariadic = true ∨ HasEllipsis rest := by
  obtain ⟨es, us, bar, derives, rfl, dangling, -, rfl⟩ := h
  simp [derives.hasEllipsis_iff, dangling.not_hasEllipsis, Phrase.HasVariadic,
    hasVariadic_ofBranches]

theorem hasEllipsis_tokens_iff {text : String} :
    HasEllipsis (tokens text) ↔ Token.hasEllipsis text = true := by
  simp [HasEllipsis, Token.hasEllipsis]

/-- The blanks around a text make no difference for its ellipses. -/
theorem hasEllipsis_strippedTokens {text : String} :
    HasEllipsis (strippedTokens text) ↔ Token.hasEllipsis text = true := by
  rw [strippedTokens, hasEllipsis_tokens_iff, Token.hasEllipsis_iff, Token.hasEllipsis_iff,
    String.toList_ofList, ellipsis_mem_kinds_trim]

end TypeExpr
end AmbientDecl
