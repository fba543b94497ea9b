/- # Where a syntax error points

The reader takes one token at a time and never goes back.

* Whatever it has taken in can still become a type expression: a name fills an open place, and the
  open brackets can be closed one after the other (`State.completable`).
* A run that fails has taken in all tokens before the one at which it fails, and it would fail at
  this one whatever came after it (`State.exists_of_run_error`).

So a syntax error stands at the first token with which no type expression goes on, or at the end
of the text, where the text could have gone on (`read_error_firstFault`).  No two tokens of a text
start at one position (`Token.pairwise_places`), so the position tells which token it is.
-/

import AmbientDecl.Proofs.TypeExpr.Lexing
import AmbientDecl.Proofs.TypeExpr.Reading
import Mathlib.Data.List.Nodup

namespace AmbientDecl

namespace Token

/-- The positions of the tokens of a text in their order, and then that of its end. -/
def places (text : String) : List Nat :=
  (tokens text).map position ++ [text.length]

/-- A token stands in the part of the text that is scanned. -/
theorem position_of_mem_scan {start skip : Nat} {cs : List Char} {token : Token}
    (mem : token ∈ scan start skip cs) :
    start ≤ token.position ∧ token.position < start + cs.length := by
  induction cs generalizing start skip with
  | nil => exact absurd mem List.not_mem_nil
  | cons c cs ih =>
    have later : ∀ {skip}, token ∈ scan (start + 1) skip cs →
        start ≤ token.position ∧ token.position < start + (c :: cs).length := by
      intro skip mem
      have bounds := ih mem
      rw [List.length_cons]
      omega
    cases skip with
    | succ skip => exact later mem
    | zero =>
      rw [scan_cons] at mem
      rcases List.mem_cons.1 mem with rfl | mem
      · exact ⟨Nat.le_refl _, Nat.lt_add_of_pos_right (Nat.succ_pos _)⟩
      · exact later mem

theorem pairwise_scan (start skip : Nat) (cs : List Char) :
    (scan start skip cs).Pairwise fun token other => token.position < other.position := by
  induction cs generalizing start skip with
  | nil => exact .nil
  | cons c cs ih =>
    cases skip with
    | succ skip => exact ih _ _
    | zero =>
      rw [scan_cons]
      exact .cons (fun other mem => (position_of_mem_scan mem).1) (ih _ _)

/-- **Every token stands after the ones before it,** and before the end of the text. -/
theorem pairwise_places (text : String) : (places text).Pairwise (· < ·) := by
  refine List.pairwise_append.2 ⟨?_, List.pairwise_singleton _ _, ?_⟩
  · exact List.pairwise_map.2 (pairwise_scan 0 0 text.toList)
  · intro place mem last same
    obtain ⟨token, scanned, rfl⟩ := List.mem_map.1 mem
    have bounds := (position_of_mem_scan scanned).2
    rwa [String.length_toList, Nat.zero_add, ← List.mem_singleton.1 same] at bounds

/-- A position is that of one token or of the end. -/
theorem eq_of_places {text : String} {position i j : Nat} (h : (places text)[i]? = some position)
    (h' : (places text)[j]? = some position) : i = j := by
  have nodup : (places text).Nodup := (pairwise_places text).imp Nat.ne_of_lt
  obtain ⟨lt, -⟩ := List.getElem?_eq_some_iff.1 h
  exact (List.getElem?_inj lt nodup).1 (h.trans h'.symm)

end Token

namespace TypeExpr

variable {tokens : List Token} {text : String}

/-- The reader accepts the tokens, so they begin with a type expression (`ofTokens_eq_ok_iff`). -/
def Accepts (tokens : List Token) : Prop := ∃ e, ofTokens tokens = .ok e

/-- The first `number` tokens can go on to be accepted, and with the next one, if there is one, they
cannot. -/
structure FirstFault (tokens : List Token) (number : Nat) : Prop where
  goesOn : ∃ more, Accepts (tokens.take number ++ more)
  stops : number < tokens.length → ∀ more, ¬ Accepts (tokens.take (number + 1) ++ more)

namespace State

variable {frames : List (Bracket × Level)} {es : List TypeExpr} {state next : State}
  {token : Token} {fault : SyntaxFault} {rest : List Token}

/-- There are tokens after which the reader ends with an expression. -/
def Completable (state : State) : Prop := ∃ more e, state.run more = .ok e

theorem Completable.of_step (first : step state token = .ok next) (h : next.Completable) :
    state.Completable := by
  obtain ⟨more, e, ends⟩ := h
  exact ⟨token :: more, e, by rw [run, first]; exact ends⟩

/-- After a whole branch the open brackets can be closed, the innermost first. -/
theorem Whole.completable (h : Whole frames es state) : state.Completable := by
  induction frames generalizing es state with
  | nil => exact ⟨[], ofBranches es, (Steps.nil state).run h.finish⟩
  | cons frame frames ih =>
    obtain ⟨bracket, outer⟩ := frame
    cases bracket with
    | arguments base args =>
      have closes := h.greater (rfl : (Token.mk .greater ">" 0).kind = .greater)
      exact .of_step closes (ih (.held (.value _)))
    | paren =>
      have closes := h.closeParen (rfl : (Token.mk .closeParen ")" 0).kind = .closeParen)
      exact .of_step closes (ih (.held (.value _)))

/-- Where a branch may start, a name can be the branch. -/
theorem Phrase.Awaits.completable {phase : Phase} (awaits : phase.Awaits)
    (frames : List (Bracket × Level)) (level : Level) :
    (reading frames level phase).Completable :=
  .of_step (step_name awaits (rfl : (Token.mk .name "A" 0).kind = .name) frames level)
    (Whole.held (.named "A")).completable

/-- **Every state of the reader can be completed.** -/
theorem completable (state : State) : state.Completable := by
  cases state with
  | finished e => exact ⟨[], e, rfl⟩
  | reading frames level phase =>
    cases phase with
    | start => exact Phrase.Awaits.completable (.inl rfl) frames level
    | operand => exact Phrase.Awaits.completable (.inr rfl) frames level
    | named n => exact (Whole.held (.named n)).completable
    | value e => exact (Whole.held (.value e)).completable
    | branch e => exact (Whole.ended level e).completable

/-- What a reader does that is at fault: it does not take the next token in, or it may not end. -/
def FailsAt (state : State) (fault : SyntaxFault) : List Token → Prop
  | [] => finish state = .error fault
  | token :: _ => step state token = .error fault

/-- A run that fails takes in the tokens before those that are left over. -/
theorem exists_of_run_error {ts : List Token} (h : state.run ts = .error (fault, rest)) :
    ∃ taken last, ts = taken ++ rest ∧ Steps state taken last ∧ last.FailsAt fault rest := by
  induction ts generalizing state with
  | nil =>
    rw [run] at h
    cases ends : finish state with
    | ok e =>
      rw [ends] at h
      cases h
    | error reason =>
      rw [ends] at h
      cases h
      exact ⟨[], state, rfl, .nil state, ends⟩
  | cons token ts ih =>
    rw [run] at h
    cases first : step state token with
    | ok next =>
      rw [first] at h
      obtain ⟨taken, last, rfl, steps, fails⟩ := ih h
      exact ⟨token :: taken, last, rfl, .cons first steps, fails⟩
    | error reason =>
      rw [first] at h
      cases h
      exact ⟨[], state, rfl, .nil state, first⟩

end State

/-- The tokens that were taken in before a failure are all that could be taken in. -/
theorem firstFault_of_ofTokens {fault : SyntaxFault} {rest : List Token}
    (h : ofTokens tokens = .error (fault, rest)) :
    ∃ taken, tokens = taken ++ rest ∧ FirstFault tokens taken.length := by
  obtain ⟨taken, last, rfl, steps, fails⟩ := State.exists_of_run_error h
  refine ⟨taken, rfl, ?_, fun more follow => ?_⟩
  · obtain ⟨more, e, ends⟩ := last.completable
    exact ⟨more, e, by rw [List.take_left, ofTokens, steps.run_append, ends]⟩
  · cases rest with
    | nil => simp at more
    | cons token rest =>
      rintro ⟨e, accepted⟩
      have first : State.step last token = .error fault := fails
      rw [List.take_append, List.take_of_length_le (Nat.le_succ _), Nat.add_sub_cancel_left,
        List.take_succ_cons, List.take_zero, List.append_assoc, List.singleton_append, ofTokens,
        steps.run_append, State.run, first] at accepted
      cases accepted

/-- **A syntax error points at the first token that cannot be right.**  Its position is that of one
token, or of the end of the text; the tokens before it are the beginning of tokens that are
accepted; and if there is a token at the position, then no tokens are accepted that begin with those
before it and this one. -/
theorem read_error_firstFault {error : SyntaxError} (h : read text = .error error) :
    error.text = String.ofList (Text.trim text.toList) ∧
      ∃ number, (Token.places error.text)[number]? = some error.position ∧
        (∀ other, (Token.places error.text)[other]? = some error.position → other = number) ∧
        FirstFault (Token.tokens error.text) number := by
  rw [read] at h
  generalize String.ofList (Text.trim text.toList) = stripped at h
  cases result : ofTokens (Token.tokens stripped) with
  | ok e =>
    rw [result] at h
    cases h
  | error failure =>
    obtain ⟨fault, rest⟩ := failure
    rw [result] at h
    cases h
    obtain ⟨taken, split, first⟩ := firstFault_of_ofTokens result
    have place : (Token.places stripped)[taken.length]? =
        some ((rest.head?.map Token.position).getD stripped.length) := by
      rw [Token.places, split]
      cases rest <;> simp
    exact ⟨rfl, taken.length, place, fun _ other => Token.eq_of_places other place, first⟩

/-- After the blank in the brackets of `Map` an argument may still start, but not with a bar. -/
theorem firstFault_bar : read " Map<Id, |Key>" = .error ⟨"Map<Id, |Key>", 8, .expectedType⟩ ∧
    FirstFault (Token.tokens "Map<Id, |Key>") 5 := by
  have refused : read " Map<Id, |Key>" = .error ⟨"Map<Id, |Key>", 8, .expectedType⟩ := by rfl
  obtain ⟨-, number, -, unique, first⟩ := read_error_firstFault refused
  have fifth : 5 = number := unique 5 (by rfl)
  exact ⟨refused, fifth ▸ first⟩

end TypeExpr
end AmbientDecl
