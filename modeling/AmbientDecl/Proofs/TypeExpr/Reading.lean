/- # A text is read by the grammar

The reader accepts the tokens that begin with a type expression and no others, and it gives the
tree of that expression: what a run ends with is what its tokens begin with
(`State.Reads.beginsWith`), and what tokens begin with is what a run over them ends with
(`BeginsWith.ofTokens`).  As the reader is a function, the tree is the only one.
-/

import AmbientDecl.Proofs.Blank
import AmbientDecl.Proofs.TypeExpr.Complete
import AmbientDecl.Proofs.TypeExpr.Sound

namespace AmbientDecl
namespace TypeExpr

/-- The reader has taken in nothing at first. -/
theorem State.reads_initial : Reads .initial [] := by
  have nothing : Present false .start .start [] := .start (.plain (.start (Gap.nil false))) rfl
  simpa [initial] using Reads.reading .nil nothing

/-- **Tokens are read as the expression that they begin with**, and they are read only so. -/
theorem ofTokens_eq_ok_iff {tokens : List Token} {e : TypeExpr} :
    ofTokens tokens = .ok e ↔ BeginsWith tokens e := by
  refine ⟨fun h => ?_, BeginsWith.ofTokens⟩
  obtain ⟨last, steps, ends⟩ := State.steps_of_run h
  have reads := State.reads_initial.steps steps
  exact reads.beginsWith ends

/-- Tokens begin with one expression at most. -/
theorem BeginsWith.unique {tokens : List Token} {e e' : TypeExpr} (h : BeginsWith tokens e)
    (h' : BeginsWith tokens e') : e = e' :=
  Except.ok.inj (h.ofTokens.symm.trans h'.ofTokens)

/-- The tokens of a text without the blanks around it. -/
def strippedTokens (text : String) : List Token :=
  Token.tokens (String.ofList (Text.trim text.toList))

/-- A text is read without the blanks around it. -/
theorem read_trim (text : String) : read (String.ofList (Text.trim text.toList)) = read text := by
  simp only [read, String.toList_ofList, Text.trim_trim]

/-- A text is read as its tokens are. -/
theorem read_eq_ok_iff {text : String} {e : TypeExpr} :
    read text = .ok e ↔ ofTokens (strippedTokens text) = .ok e := by
  rw [read, strippedTokens]
  cases ofTokens (Token.tokens (String.ofList (Text.trim text.toList))) with
  | ok e' => exact ⟨fun h => congrArg _ (Except.ok.inj h), fun h => congrArg _ (Except.ok.inj h)⟩
  | error fault => exact ⟨nofun, nofun⟩

/-- A syntax error holds the text without the blanks around it. -/
theorem text_of_read_eq_error {text : String} {error : SyntaxError} (h : read text = .error error) :
    error.text = String.ofList (Text.trim text.toList) := by
  rw [read] at h
  cases result : ofTokens (Token.tokens (String.ofList (Text.trim text.toList))) with
  | ok e =>
    rw [result] at h
    cases h
  | error failure =>
    rw [result] at h
    cases h
    rfl

/-- **A text is read by the grammar.**  It is read as a type expression exactly if its tokens are
those of a derivation of that expression, perhaps a bar, and nothing more or prose after a blank;
it is refused with a syntax error exactly if they are so for no expression; and they are so for
one expression at most. -/
theorem read_by_grammar (text : String) :
    (∀ e, read text = .ok e ↔ BeginsWith (strippedTokens text) e) ∧
      ((∃ error, read text = .error error) ↔ ∀ e, ¬ BeginsWith (strippedTokens text) e) ∧
      ∀ e e', BeginsWith (strippedTokens text) e → BeginsWith (strippedTokens text) e' →
        e = e' := by
  have accepts : ∀ e, read text = .ok e ↔ BeginsWith (strippedTokens text) e := fun e =>
    read_eq_ok_iff.trans ofTokens_eq_ok_iff
  refine ⟨accepts, ⟨?_, fun none => ?_⟩, fun _ _ => BeginsWith.unique⟩
  · rintro ⟨error, refused⟩ e begins
    have accepted := (accepts e).2 begins
    rw [refused] at accepted
    exact absurd accepted nofun
  · cases result : read text with
    | ok e => exact absurd ((accepts e).1 result) (none e)
    | error fault => exact ⟨fault, rfl⟩

example : read "(A | B)[]... items" = .ok (variadic (array (union [name "A", name "B"]))) := by
  rfl

end TypeExpr
end AmbientDecl
