/- # The reader takes in every phrase

For each phrase of the grammar, what state the reader comes to when it takes in the tokens of the
phrase (`Phrase.Taken`).  The induction is on the derivation; the two kinds of states that come up
are those that hold an operand, which may still get `[]` (`State.Holds`), and those that have read
a whole union (`State.Whole`).  A union in brackets ends at its closing token or at a comma, one
outside of all at a blank or the last token.
-/

import AmbientDecl.Proofs.TypeExpr.Grammar
import AmbientDecl.Proofs.TypeExpr.Steps

namespace AmbientDecl
namespace TypeExpr

namespace State

/-- The present branch holds the operand `e`, which may still get `[]`. -/
inductive Holds (frames : List (Bracket × Level)) (level : Level) : TypeExpr → State → Prop where
  | named (n : String) : Holds frames level (name n) (reading frames level (.named n))
  | value (e : TypeExpr) : Holds frames level e (reading frames level (.value e))

/-- The branches `es` of the present union have been read, the last one to its end. -/
inductive Whole (frames : List (Bracket × Level)) : List TypeExpr → State → Prop where
  | held {level : Level} {e : TypeExpr} {state : State} (holds : Holds frames level e state) :
      Whole frames (level.branches ++ [wholeBranch level e]) state
  | ended (level : Level) (e : TypeExpr) :
      Whole frames (level.branches ++ [e]) (reading frames level (.branch e))

section
variable {frames : List (Bracket × Level)} {level outer : Level} {e : TypeExpr}
  {es args : List TypeExpr} {base : String} {state : State} {token : Token}

theorem Holds.array (h : Holds frames level e state) (kind : token.kind = .array) :
    step state token = .ok (reading frames level (.value (TypeExpr.array e))) := by
  cases h <;> simp [step, stepValue, kind]

theorem Holds.ellipsis (h : Holds frames level e state) (kind : token.kind = .ellipsis)
    (plain : level.spread = false) :
    step state token = .ok (reading frames level (.branch (variadic e))) := by
  cases h <;> simp [step, stepValue, kind, plain]

/-- Any other token after an operand ends the branch. -/
theorem Holds.step {kind : TokenKind} (h : Holds frames level e state) (same : token.kind = kind)
    (ends : kind ≠ .less ∧ kind ≠ .array ∧ kind ≠ .ellipsis) :
    step state token = stepBranch frames level (wholeBranch level e) token := by
  obtain ⟨less, array, ellipsis⟩ := same ▸ ends
  have value : stepValue frames level e token
      = stepBranch frames level (wholeBranch level e) token := by
    rw [stepValue]
    split
    next kind => exact absurd kind array
    next kind _ => exact absurd kind ellipsis
    next => rfl
  cases h with
  | named n => rw [State.step, if_neg less, value]
  | value e => rw [State.step, value]

/-- The token after a whole branch is taken as one after a branch. -/
theorem Whole.step {kind : TokenKind} (h : Whole frames es state) (same : token.kind = kind)
    (ends : kind ≠ .less ∧ kind ≠ .array ∧ kind ≠ .ellipsis) :
    ∃ level e, level.branches ++ [e] = es ∧
      step state token = stepBranch frames level e token := by
  cases h with
  | held holds => exact ⟨_, _, rfl, holds.step same ends⟩
  | ended level e => exact ⟨level, e, rfl, rfl⟩

/-- A bar goes on with the next branch. -/
theorem Whole.bar (h : Whole frames es state) (kind : token.kind = .bar) :
    State.step state token = .ok (reading frames ⟨es, false⟩ .start) := by
  obtain ⟨level, e, rfl, step⟩ := h.step kind (by decide)
  rw [step]
  cases frames <;> simp [stepBranch, stepOuterBranch, stepInnerBranch, kind, Level.next]

/-- In brackets a blank changes nothing. -/
theorem Whole.blank {frame : Bracket × Level} (h : Whole (frame :: frames) es state)
    (kind : token.kind = .blank) :
    ∃ next, State.step state token = .ok next ∧ Whole (frame :: frames) es next := by
  obtain ⟨level, e, rfl, step⟩ := h.step kind (by decide)
  refine ⟨reading (frame :: frames) level (.branch e), ?_, .ended level e⟩
  rw [step]
  simp [stepBranch, stepInnerBranch, kind]

/-- Outside all brackets a blank ends the expression. -/
theorem Whole.prose (h : Whole [] es state) (kind : token.kind = .blank) :
    State.step state token = .ok (finished (ofBranches es)) := by
  obtain ⟨level, e, rfl, step⟩ := h.step kind (by decide)
  rw [step]
  simp [stepBranch, stepOuterBranch, kind, Level.close]

theorem Whole.comma (h : Whole ((.arguments base args, outer) :: frames) es state)
    (kind : token.kind = .comma) : State.step state token
      = .ok (reading ((.arguments base (args ++ [ofBranches es]), outer) :: frames)
        .start .start) := by
  obtain ⟨level, e, rfl, step⟩ := h.step kind (by decide)
  rw [step]
  simp [stepBranch, stepInnerBranch, kind, Level.close]

theorem Whole.greater (h : Whole ((.arguments base args, outer) :: frames) es state)
    (kind : token.kind = .greater) : State.step state token
      = .ok (reading frames outer (.value (generic base (args ++ [ofBranches es])))) := by
  obtain ⟨level, e, rfl, step⟩ := h.step kind (by decide)
  rw [step]
  simp [stepBranch, stepInnerBranch, kind, Level.close]

theorem Whole.closeParen (h : Whole ((.paren, outer) :: frames) es state)
    (kind : token.kind = .closeParen) :
    State.step state token = .ok (reading frames outer (.value (ofBranches es))) := by
  obtain ⟨level, e, rfl, step⟩ := h.step kind (by decide)
  rw [step]
  simp [stepBranch, stepInnerBranch, kind, Level.close]

theorem Whole.finish (h : Whole [] es state) : finish state = .ok (ofBranches es) := by
  cases h with
  | held holds => cases holds <;> rfl
  | ended level e => rfl

/-- Blanks at the start of a branch in brackets change nothing. -/
theorem steps_gap {free : Bool} {gap : List Token} (inside : free = true → frames ≠ [])
    (h : Gap free gap) : Steps (reading frames level .start) gap (reading frames level .start) := by
  induction gap with
  | nil => exact .nil _
  | cons token gap ih =>
    obtain ⟨blanks, kind⟩ := h token (List.mem_cons_self ..)
    refine .cons ?_ (ih fun t mem => h t (List.mem_cons_of_mem _ mem))
    simp [step, stepStart, kind, inside blanks]

/-- Blanks after a whole branch in brackets change nothing. -/
theorem Whole.gap {free : Bool} {gap : List Token} (inside : free = true → frames ≠ [])
    (h : Gap free gap) (whole : Whole frames es state) :
    ∃ next, Steps state gap next ∧ Whole frames es next := by
  induction gap generalizing state with
  | nil => exact ⟨state, .nil _, whole⟩
  | cons token gap ih =>
    obtain ⟨blanks, kind⟩ := h token (List.mem_cons_self ..)
    obtain ⟨frame, outside, rfl⟩ := List.exists_cons_of_ne_nil (inside blanks)
    obtain ⟨next, first, whole⟩ := whole.blank kind
    obtain ⟨last, rest, whole⟩ := ih (fun t mem => h t (List.mem_cons_of_mem _ mem)) whole
    exact ⟨last, .cons first rest, whole⟩

end

end State

open State

/-- A branch may start with an operand in this phase. -/
def Phase.Awaits (phase : Phase) : Prop := phase = .start ∨ phase = .operand

/-- What the reader comes to when it takes in the tokens of a phrase. -/
def Phrase.Taken : Phrase → List Token → Prop
  | union free es, ts => ∀ frames, (free = true → frames ≠ []) →
    ∃ state, Steps (reading frames .start .start) ts state ∧ Whole frames es state
  | arguments args, ts => ∀ base outer frames, ∃ before es state, args = before ++ [ofBranches es] ∧
    Steps (reading ((.arguments base [], outer) :: frames) .start .start) ts state ∧
    Whole ((.arguments base before, outer) :: frames) es state
  | branch e, ts => ∀ frames branches, ∃ state,
    Steps (reading frames ⟨branches, false⟩ .start) ts state ∧ Whole frames (branches ++ [e]) state
  | operand e, ts | atom e, ts => ∀ frames level phase, phase.Awaits → ∃ state,
    Steps (reading frames level phase) ts state ∧ Holds frames level e state

section
variable {free : Bool} {es args : List TypeExpr} {e : TypeExpr} {ts us gap gap' : List Token}
  {first last token : Token}

theorem taken_bar (before : (Phrase.union free es).Taken us) (left : Gap free gap)
    (kind : token.kind = .bar) (right : Gap free gap') (branch : (Phrase.branch e).Taken ts) :
    (Phrase.union free (es ++ [e])).Taken (us ++ gap ++ token :: (gap' ++ ts)) := by
  intro frames inside
  obtain ⟨_, overUnion, whole⟩ := before frames inside
  obtain ⟨_, overGap, whole⟩ := whole.gap inside left
  obtain ⟨state, overBranch, last⟩ := branch frames es
  exact ⟨state, (overUnion.append overGap).append
    (.cons (whole.bar kind) ((steps_gap inside right).append overBranch)), last⟩

theorem taken_argument (union : (Phrase.union true es).Taken us) (right : Gap true gap) :
    (Phrase.arguments [ofBranches es]).Taken (us ++ gap) := by
  intro base outer frames
  obtain ⟨_, overUnion, whole⟩ :=
    union ((.arguments base [], outer) :: frames) fun _ => List.cons_ne_nil _ _
  obtain ⟨state, overGap, whole⟩ := whole.gap (fun _ => List.cons_ne_nil _ _) right
  exact ⟨[], es, state, rfl, overUnion.append overGap, whole⟩

theorem taken_comma (before : (Phrase.arguments args).Taken ts) (kind : token.kind = .comma)
    (left : Gap true gap) (union : (Phrase.union true es).Taken us) (right : Gap true gap') :
    (Phrase.arguments (args ++ [ofBranches es])).Taken (ts ++ token :: (gap ++ (us ++ gap'))) := by
  intro base outer frames
  obtain ⟨args, ds, _, rfl, overArguments, whole⟩ := before base outer frames
  have next := whole.comma kind
  obtain ⟨_, overUnion, whole⟩ := union
    ((.arguments base (args ++ [ofBranches ds]), outer) :: frames) fun _ => List.cons_ne_nil _ _
  obtain ⟨state, overGap, whole⟩ := whole.gap (fun _ => List.cons_ne_nil _ _) right
  have overLeft := Steps.append (steps_gap (fun _ => List.cons_ne_nil _ _) left) overUnion
  have overNext := Steps.cons next (overLeft.append overGap)
  rw [List.append_assoc] at overNext
  exact ⟨args ++ [ofBranches ds], es, state, rfl, overArguments.append overNext, whole⟩

theorem taken_plain (operand : (Phrase.operand e).Taken ts) : (Phrase.branch e).Taken ts := by
  intro frames branches
  obtain ⟨state, steps, holds⟩ := operand frames ⟨branches, false⟩ .start (.inl rfl)
  exact ⟨state, steps, .held holds⟩

theorem taken_ahead (kind : token.kind = .ellipsis) (operand : (Phrase.operand e).Taken ts) :
    (Phrase.branch (variadic e)).Taken (token :: ts) := by
  intro frames branches
  obtain ⟨state, steps, holds⟩ := operand frames ⟨branches, true⟩ .operand (.inr rfl)
  refine ⟨state, .cons ?_ steps, .held holds⟩
  simp [step, stepStart, kind]

theorem taken_behind (operand : (Phrase.operand e).Taken ts) (kind : token.kind = .ellipsis) :
    (Phrase.branch (variadic e)).Taken (ts ++ [token]) := by
  intro frames branches
  obtain ⟨state, steps, holds⟩ := operand frames ⟨branches, false⟩ .start (.inl rfl)
  exact ⟨_, steps.append (.one (holds.ellipsis kind rfl)), .ended ⟨branches, false⟩ (variadic e)⟩

theorem taken_array (operand : (Phrase.operand e).Taken ts) (kind : token.kind = .array) :
    (Phrase.operand (array e)).Taken (ts ++ [token]) := by
  intro frames level phase awaits
  obtain ⟨state, steps, holds⟩ := operand frames level phase awaits
  exact ⟨_, steps.append (.one (holds.array kind)), .value (array e)⟩

/-- A name is taken alike at the start of a branch and after an ellipsis. -/
theorem step_name {phase : Phase} (awaits : phase.Awaits) (kind : token.kind = .name)
    (frames : List (Bracket × Level)) (level : Level) :
    step (reading frames level phase) token = .ok (reading frames level (.named token.text)) := by
  rcases awaits with rfl | rfl <;> simp [step, stepStart, stepOperand, kind]

/-- So is an opening parenthesis. -/
theorem step_openParen {phase : Phase} (awaits : phase.Awaits) (kind : token.kind = .openParen)
    (frames : List (Bracket × Level)) (level : Level) :
    step (reading frames level phase) token
      = .ok (reading ((.paren, level) :: frames) .start .start) := by
  rcases awaits with rfl | rfl <;> simp [step, stepStart, stepOperand, kind]

theorem taken_name (kind : token.kind = .name) :
    (Phrase.atom (name token.text)).Taken [token] := fun frames level _ awaits =>
  ⟨_, .one (step_name awaits kind frames level), .named token.text⟩

theorem taken_generic (kind : token.kind = .name) (opens : first.kind = .less)
    (left : Gap true gap) (arguments : (Phrase.arguments args).Taken ts)
    (closes : last.kind = .greater) :
    (Phrase.atom (generic token.text args)).Taken
      (token :: first :: (gap ++ ts ++ [last])) := by
  intro frames level phase awaits
  obtain ⟨before, es, _, rfl, steps, whole⟩ := arguments token.text level frames
  have opened : step (reading frames level (.named token.text)) first
      = .ok (reading ((.arguments token.text [], level) :: frames) .start .start) := by
    simp [step, opens]
  have overGap := Steps.append (steps_gap (fun _ => List.cons_ne_nil _ _) left) steps
  exact ⟨_, .cons (step_name awaits kind frames level) (.cons opened
    (overGap.append (.one (whole.greater closes)))), .value _⟩

theorem taken_paren (opens : first.kind = .openParen) (left : Gap true gap)
    (union : (Phrase.union true es).Taken us) (right : Gap true gap')
    (closes : last.kind = .closeParen) :
    (Phrase.atom (ofBranches es)).Taken (first :: (gap ++ (us ++ gap') ++ [last])) := by
  intro frames level phase awaits
  obtain ⟨_, overUnion, whole⟩ :=
    union ((.paren, level) :: frames) fun _ => List.cons_ne_nil _ _
  obtain ⟨_, overRight, whole⟩ := whole.gap (fun _ => List.cons_ne_nil _ _) right
  have overLeft := Steps.append (steps_gap (fun _ => List.cons_ne_nil _ _) left)
    (overUnion.append overRight)
  exact ⟨_, .cons (step_openParen awaits opens frames level)
    (overLeft.append (.one (whole.closeParen closes))), .value _⟩

end

/-- **Every phrase is taken in.** -/
theorem Derives.taken {phrase : Phrase} {ts : List Token} (h : Derives phrase ts) :
    phrase.Taken ts := by
  induction h with
  | single _ ih => exact fun frames _ => ih frames []
  | bar _ left kind right _ before branch => exact taken_bar before left kind right branch
  | argument _ right union => exact taken_argument union right
  | comma _ kind left _ right before union => exact taken_comma before kind left union right
  | plain _ operand => exact taken_plain operand
  | ahead kind _ operand => exact taken_ahead kind operand
  | behind _ kind operand => exact taken_behind operand kind
  | atom _ atom => exact atom
  | array _ kind operand => exact taken_array operand kind
  | name kind => exact taken_name kind
  | generic kind opens left _ closes arguments =>
    exact taken_generic kind opens left arguments closes
  | paren opens left _ right closes union => exact taken_paren opens left union right closes

theorem State.Whole.ne_finished {frames : List (Bracket × Level)} {es : List TypeExpr}
    {state : State} (h : Whole frames es state) (e : TypeExpr) : state ≠ finished e := by
  cases h with
  | held holds => cases holds <;> exact nofun
  | ended => exact nofun

/-- The reader has taken in the branches of an expression, perhaps with a bar after them: it could
end, and the blank that prose begins with ends it. -/
structure State.Ready (es : List TypeExpr) (state : State) : Prop where
  ends : finish state = .ok (ofBranches es)
  prose : ∀ token : Token, token.kind = .blank → step state token = .ok (finished (ofBranches es))
  ne_finished : ∀ e, state ≠ finished e

/-- Where prose may follow, the reader is ready for it. -/
theorem Derives.ready {es : List TypeExpr} {us bar : List Token}
    (h : Derives (.union false es) us) (dangling : Dangling bar) :
    ∃ state, Steps .initial (us ++ bar) state ∧ Ready es state := by
  obtain ⟨state, overUnion, whole⟩ := h.taken [] nofun
  rcases dangling with rfl | ⟨token, kind, rfl⟩
  · rw [List.append_nil]
    exact ⟨state, overUnion, whole.finish, fun _ => whole.prose, whole.ne_finished⟩
  · have some := h.branches_ne_nil
    refine ⟨_, overUnion.append (.one (whole.bar kind)), ?_, fun token kind => ?_, nofun⟩
    · simp [finish, some]
    · simp [step, stepStart, kind, some]

/-- **Every type expression is read.**  Tokens that begin with a type expression are read as that
expression. -/
theorem BeginsWith.ofTokens {ts : List Token} {e : TypeExpr} (h : BeginsWith ts e) :
    ofTokens ts = .ok e := by
  obtain ⟨es, us, bar, prose, derives, rfl, dangling, proseAfter, rfl⟩ := h
  obtain ⟨state, steps, ready⟩ := derives.ready dangling
  rw [TypeExpr.ofTokens, steps.run_append]
  cases prose with
  | nil => exact (Steps.nil state).run ready.ends
  | cons token prose =>
    have first := ready.prose token (proseAfter token rfl)
    exact (Steps.cons first (steps_finished _ prose)).run rfl

end TypeExpr
end AmbientDecl
