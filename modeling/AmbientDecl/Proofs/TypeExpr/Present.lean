/- # What leads to a state of the reader

For each state of the reader, the tokens that lead to it (`State.Reads`): what stands before each
open bracket with the bracket itself (`Opened`), and what stands after the innermost one
(`Present`).  The lemmas say how what stands in a union becomes a phrase of the grammar.
-/

import AmbientDecl.Proofs.TypeExpr.Grammar

namespace AmbientDecl
namespace TypeExpr

/-- A union among blanks, where they are free. -/
inductive Inside (free : Bool) (es : List TypeExpr) : List Token → Prop where
  | intro {left us right : List Token} (before : Gap free left)
      (union : Derives (.union free es) us) (after : Gap free right) :
      Inside free es (left ++ us ++ right)

/-- What stands before a branch in its union: nothing but blanks, or the other branches and a
bar. -/
inductive Lead (free : Bool) : List TypeExpr → List Token → Prop where
  | start {gap : List Token} (blanks : Gap free gap) : Lead free [] gap
  | bar {es : List TypeExpr} {ts gap : List Token} {bar : Token} (before : Inside free es ts)
      (kind : bar.kind = .bar) (blanks : Gap free gap) : Lead free es (ts ++ bar :: gap)

/-- What stands before an operand in its union, with the ellipsis that opens the branch. -/
inductive Ahead (free : Bool) : Level → List Token → Prop where
  | plain {es : List TypeExpr} {ts : List Token} (lead : Lead free es ts) :
      Ahead free ⟨es, false⟩ ts
  | spread {es : List TypeExpr} {ts : List Token} {ellipsis : Token} (lead : Lead free es ts)
      (kind : ellipsis.kind = .ellipsis) : Ahead free ⟨es, true⟩ (ts ++ [ellipsis])

/-- The tokens after the innermost open bracket. -/
inductive Present (free : Bool) (level : Level) : Phase → List Token → Prop where
  | start {ts : List Token} (ahead : Ahead free level ts) (plain : level.spread = false) :
      Present free level .start ts
  | operand {ts : List Token} (ahead : Ahead free level ts) : Present free level .operand ts
  | named {ts : List Token} {token : Token} (ahead : Ahead free level ts)
      (kind : token.kind = .name) : Present free level (.named token.text) (ts ++ [token])
  | value {ts us : List Token} {e : TypeExpr} (ahead : Ahead free level ts)
      (operand : Derives (.operand e) us) : Present free level (.value e) (ts ++ us)
  | branch {ts : List Token} {e : TypeExpr} (union : Inside free (level.branches ++ [e]) ts) :
      Present free level (.branch e) ts

/-- A bracket stands open, and blanks are free. -/
def inBrackets (frames : List (Bracket × Level)) : Bool := !frames.isEmpty

/-- The tokens up to the innermost open bracket, with the arguments that it already has. -/
inductive Opened : List (Bracket × Level) → List Token → Prop where
  | nil : Opened [] []
  | paren {frames : List (Bracket × Level)} {level : Level} {before ts : List Token}
      {opening : Token} (around : Opened frames before) (ahead : Ahead (inBrackets frames) level ts)
      (kind : opening.kind = .openParen) :
      Opened ((.paren, level) :: frames) (before ++ ts ++ [opening])
  | generic {frames : List (Bracket × Level)} {level : Level} {before ts : List Token}
      {base less : Token} (around : Opened frames before)
      (ahead : Ahead (inBrackets frames) level ts) (kind : base.kind = .name)
      (opens : less.kind = .less) :
      Opened ((.arguments base.text [], level) :: frames) (before ++ ts ++ [base, less])
  | comma {frames : List (Bracket × Level)} {level : Level} {before ts gap us : List Token}
      {base less comma : Token} {args : List TypeExpr} (around : Opened frames before)
      (ahead : Ahead (inBrackets frames) level ts) (kind : base.kind = .name)
      (opens : less.kind = .less) (blanks : Gap true gap)
      (arguments : Derives (.arguments args) us) (next : comma.kind = .comma) :
      Opened ((.arguments base.text args, level) :: frames)
        (before ++ ts ++ base :: less :: (gap ++ us ++ [comma]))

/-- The tokens that lead to a state. -/
inductive State.Reads : State → List Token → Prop where
  | reading {frames : List (Bracket × Level)} {level : Level} {phase : Phase}
      {before ts : List Token} (around : Opened frames before)
      (present : Present (inBrackets frames) level phase ts) :
      Reads (.reading frames level phase) (before ++ ts)
  | finished {es : List TypeExpr} {us bar prose : List Token} {blank : Token}
      (union : Derives (.union false es) us) (dangling : Dangling bar)
      (kind : blank.kind = .blank) :
      Reads (.finished (ofBranches es)) (us ++ bar ++ blank :: prose)

variable {free : Bool} {es args : List TypeExpr} {e : TypeExpr} {level : Level}
  {before ts us : List Token} {token : Token} {frames : List (Bracket × Level)}
  {base : String}

theorem Inside.gap (h : Inside free es ts) (blanks : Gap free us) : Inside free es (ts ++ us) := by
  obtain ⟨before, union, after⟩ := h
  rw [List.append_assoc]
  exact .intro before union (after.append blanks)

/-- Outside all brackets there is nothing but the union. -/
theorem Inside.union (h : Inside false es ts) : Derives (.union false es) ts := by
  obtain ⟨before, union, after⟩ := h
  rwa [before.eq_nil, after.eq_nil, List.nil_append, List.append_nil]

theorem Lead.gap (h : Lead free es ts) (blanks : Gap free us) : Lead free es (ts ++ us) := by
  cases h with
  | start before => exact .start (before.append blanks)
  | bar before kind after =>
    rw [List.append_assoc, List.cons_append]
    exact .bar before kind (after.append blanks)

/-- A branch after its lead ends the union that it stands in. -/
theorem Lead.branch (h : Lead free es ts) (branch : Derives (.branch e) us) :
    Inside free (es ++ [e]) (ts ++ us) := by
  cases h with
  | start blanks => simpa using Inside.intro blanks (.single branch) (Gap.nil free)
  | bar inside kind blanks =>
    obtain ⟨before, union, after⟩ := inside
    have whole := Inside.intro before (.bar union after kind blanks branch) (Gap.nil free)
    simpa using whole

/-- Outside all brackets a branch may be left out after a bar. -/
theorem Lead.dangling (h : Lead false es ts) (some : es ≠ []) :
    ∃ us bar, Derives (.union false es) us ∧ Dangling bar ∧ ts = us ++ bar := by
  cases h with
  | start => exact absurd rfl some
  | bar inside kind blanks =>
    rw [blanks.eq_nil]
    exact ⟨_, _, inside.union, .inr ⟨_, kind, rfl⟩, rfl⟩

/-- An operand makes a whole branch with the ellipsis ahead of it. -/
theorem Ahead.wholeBranch (h : Ahead free level ts) (operand : Derives (.operand e) us) :
    Inside free (level.branches ++ [State.wholeBranch level e]) (ts ++ us) := by
  cases h with
  | plain lead => exact lead.branch (.plain operand)
  | spread lead kind =>
    rw [List.append_assoc]
    exact lead.branch (.ahead kind operand)

/-- An ellipsis behind an operand makes a whole branch where none stands ahead. -/
theorem Ahead.behind (h : Ahead free level ts) (plain : level.spread = false)
    (operand : Derives (.operand e) us) (kind : token.kind = .ellipsis) :
    Inside free (level.branches ++ [variadic e]) (ts ++ us ++ [token]) := by
  cases h with
  | plain lead =>
    rw [List.append_assoc]
    exact lead.branch (.behind operand kind)
  | spread => exact absurd plain nofun

/-- The last argument before the closing bracket or a comma. -/
theorem Opened.arguments {outer : Level}
    (h : Opened ((.arguments base args, outer) :: frames) before) (inside : Inside true es ts) :
    ∃ around ahead, ∃ name less : Token, ∃ blanks us, Opened frames around ∧
      Ahead (inBrackets frames) outer ahead ∧ name.kind = .name ∧ name.text = base ∧
      less.kind = .less ∧ Gap true blanks ∧
      Derives (.arguments (args ++ [ofBranches es])) us ∧
      before ++ ts = around ++ ahead ++ name :: less :: (blanks ++ us) := by
  obtain ⟨left, union, right⟩ := inside
  cases h with
  | generic around ahead kind opens =>
    refine ⟨_, _, _, _, _, _, around, ahead, kind, rfl, opens, left, .argument union right, ?_⟩
    simp
  | comma around ahead kind opens blanks arguments next =>
    refine ⟨_, _, _, _, _, _, around, ahead, kind, rfl, opens, blanks,
      .comma arguments next left union right, ?_⟩
    simp

end TypeExpr
end AmbientDecl
