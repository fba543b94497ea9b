/- # What the reader has taken in

Every step of the reader keeps that the tokens lead to its state (`State.Reads.step`), so an
expression that the reader ends with is the one that its tokens begin with
(`State.Reads.beginsWith`).
-/

import AmbientDecl.Proofs.TypeExpr.Present
import AmbientDecl.Proofs.TypeExpr.Steps

namespace AmbientDecl
namespace TypeExpr
namespace State

variable {e : TypeExpr} {level : Level} {before ts us : List Token} {token : Token}
  {frames : List (Bracket × Level)}

/-- An open bracket stands before what comes after it. -/
theorem Reads.opened {outer : Level} {bracket : Bracket}
    (around : Opened ((bracket, outer) :: frames) before) :
    Reads (.reading ((bracket, outer) :: frames) .start .start) before := by
  have nothing : Present true .start .start [] := .start (.plain (.start (Gap.nil true))) rfl
  simpa using Reads.reading around nothing

/-- A name or a parenthesis starts an operand. -/
theorem reads_stepOperand {next : State} (around : Opened frames before)
    (ahead : Ahead (inBrackets frames) level ts) (h : stepOperand frames level token = .ok next) :
    Reads next (before ++ ts ++ [token]) := by
  rw [stepOperand] at h
  split at h
  next kind =>
    cases h
    rw [List.append_assoc]
    exact .reading around (.named ahead kind)
  next kind =>
    cases h
    exact .opened (.paren around ahead kind)
  next => exact absurd h nofun

theorem reads_stepOuterBranch {next : State} (union : Inside false (level.branches ++ [e]) ts)
    (h : stepOuterBranch level e token = .ok next) : Reads next (ts ++ [token]) := by
  rw [stepOuterBranch] at h
  split at h
  next kind =>
    cases h
    have lead := Lead.bar union kind (Gap.nil false)
    simpa [Level.next] using Reads.reading .nil (.start (.plain lead) rfl)
  next kind =>
    cases h
    rw [← List.append_nil ts]
    exact .finished union.union (.inl rfl) kind
  next => exact absurd h nofun

theorem reads_stepInnerBranch {next : State} {bracket : Bracket} {outer : Level}
    (around : Opened ((bracket, outer) :: frames) before)
    (union : Inside true (level.branches ++ [e]) ts)
    (h : stepInnerBranch bracket outer frames level e token = .ok next) :
    Reads next (before ++ ts ++ [token]) := by
  unfold stepInnerBranch at h
  split at h
  next kind =>
    cases h
    rw [List.append_assoc]
    exact .reading around (.branch (union.gap (Gap.blank kind)))
  next kind =>
    cases h
    rw [List.append_assoc]
    exact .reading around (.start (.plain (.bar union kind (Gap.nil true))) rfl)
  next kind =>
    cases h
    obtain ⟨_, _, _, _, _, _, outside, ahead, name, rfl, less, blanks, args, same⟩ :=
      around.arguments union
    have opened := Opened.comma outside ahead name less blanks args kind
    rw [same]
    exact .opened (by simpa [Level.close] using opened)
  next kind =>
    cases h
    obtain ⟨_, _, _, _, _, _, outside, ahead, name, rfl, less, blanks, args, same⟩ :=
      around.arguments union
    have operand := Derives.atom (.generic name less blanks args kind)
    rw [same]
    simpa [Level.close] using Reads.reading outside (.value ahead operand)
  next kind =>
    cases h
    cases around with
    | paren outside ahead opens =>
      obtain ⟨left, union, right⟩ := union
      have operand := Derives.atom (.paren opens left union right kind)
      simpa [Level.close] using Reads.reading outside (.value ahead operand)
  next => exact absurd h nofun

theorem reads_stepBranch {next : State} (around : Opened frames before)
    (union : Inside (inBrackets frames) (level.branches ++ [e]) ts)
    (h : stepBranch frames level e token = .ok next) : Reads next (before ++ ts ++ [token]) := by
  cases frames with
  | nil =>
    cases around
    exact reads_stepOuterBranch union h
  | cons frame frames => exact reads_stepInnerBranch around union h

theorem reads_stepValue {next : State} (around : Opened frames before)
    (ahead : Ahead (inBrackets frames) level ts) (operand : Derives (.operand e) us)
    (h : stepValue frames level e token = .ok next) :
    Reads next (before ++ (ts ++ us) ++ [token]) := by
  rw [stepValue] at h
  split at h
  next kind =>
    cases h
    have value := Present.value ahead (.array operand kind)
    simpa using Reads.reading around value
  next kind plain =>
    cases h
    have branch := Present.branch (ahead.behind plain operand kind)
    simpa using Reads.reading around branch
  next => exact reads_stepBranch around (ahead.wholeBranch operand) h

theorem reads_stepStart {next : State} (around : Opened frames before)
    (ahead : Ahead (inBrackets frames) level ts) (plain : level.spread = false)
    (h : stepStart frames level token = .ok next) : Reads next (before ++ ts ++ [token]) := by
  obtain ⟨lead⟩ | ⟨_, _⟩ := ahead
  · rw [stepStart] at h
    split at h
    next kind =>
      split at h
      next inside =>
        cases h
        have free : inBrackets frames = true := by simpa [inBrackets] using inside
        have blank : Gap (inBrackets frames) [token] := free ▸ Gap.blank kind
        rw [List.append_assoc]
        exact .reading around (.start (.plain (lead.gap blank)) rfl)
      next outside =>
        obtain rfl : frames = [] := Decidable.not_not.1 outside
        cases around
        split at h
        next some =>
          cases h
          obtain ⟨us, bar, union, dangling, rfl⟩ := lead.dangling some
          rw [List.nil_append]
          exact .finished union dangling kind
        next => exact absurd h nofun
    next kind =>
      cases h
      rw [List.append_assoc]
      exact .reading around (.operand (.spread lead kind))
    next => exact reads_stepOperand around (.plain lead) h
  · exact absurd plain nofun

/-- **Every step keeps what has been taken in.** -/
theorem Reads.step {state next : State} (h : Reads state ts)
    (steps : State.step state token = .ok next) : Reads next (ts ++ [token]) := by
  cases h with
  | reading around present =>
    cases present with
    | start ahead plain => exact reads_stepStart around ahead plain steps
    | operand ahead => exact reads_stepOperand around ahead steps
    | named ahead kind =>
      rw [State.step] at steps
      split at steps
      next less =>
        cases steps
        have opened := Reads.opened (.generic around ahead kind less)
        simpa using opened
      next => exact reads_stepValue around ahead (.atom (.name kind)) steps
    | value ahead operand => exact reads_stepValue around ahead operand steps
    | branch union => exact reads_stepBranch around union steps
  | finished union dangling kind =>
    cases steps
    rw [List.append_assoc, List.cons_append]
    exact .finished union dangling kind

theorem Reads.steps {state last : State} (h : Reads state ts) (steps : Steps state us last) :
    Reads last (ts ++ us) := by
  induction steps generalizing ts with
  | nil => rwa [List.append_nil]
  | cons first _ ih => simpa using ih (h.step first)

/-- The end of the tokens after a whole branch. -/
theorem endBranch_beginsWith {e' : TypeExpr} (around : Opened frames before)
    (union : Inside (inBrackets frames) (level.branches ++ [e]) ts)
    (h : endBranch frames level e = .ok e') : BeginsWith (before ++ ts) e' := by
  cases around with
  | nil =>
    cases h
    exact ⟨_, ts, [], [], union.union, rfl, .inl rfl, nofun, by simp⟩
  | _ => exact absurd h nofun

/-- The end of the tokens before a branch. -/
theorem start_beginsWith (around : Opened frames before)
    (ahead : Ahead (inBrackets frames) level ts) (plain : level.spread = false)
    (ends : finish (.reading frames level .start) = .ok e) : BeginsWith (before ++ ts) e := by
  obtain ⟨lead⟩ | ⟨_, _⟩ := ahead
  · cases around with
    | nil =>
      rw [finish] at ends
      split at ends
      next some =>
        cases ends
        obtain ⟨us, bar, union, dangling, rfl⟩ := lead.dangling some
        exact ⟨_, us, bar, [], union, rfl, dangling, nofun, by simp⟩
      next => exact absurd ends nofun
    | _ => exact absurd ends nofun
  · exact absurd plain nofun

/-- **What the reader ends with is what its tokens begin with.** -/
theorem Reads.beginsWith {state : State} (h : Reads state ts) (ends : finish state = .ok e) :
    BeginsWith ts e := by
  cases h with
  | reading around present =>
    cases present with
    | start ahead plain => exact start_beginsWith around ahead plain ends
    | operand => exact absurd ends (by simp [finish])
    | named ahead kind =>
      rw [finish] at ends
      exact endBranch_beginsWith around (ahead.wholeBranch (.atom (.name kind))) ends
    | value ahead operand =>
      rw [finish] at ends
      exact endBranch_beginsWith around (ahead.wholeBranch operand) ends
    | branch union =>
      rw [finish] at ends
      exact endBranch_beginsWith around union ends
  | finished union dangling kind =>
    cases ends
    have prose : ∀ rest, Prose (_ :: rest) := fun _ t same => Option.some.inj same ▸ kind
    exact ⟨_, _, _, _, union, rfl, dangling, prose _, rfl⟩

end State
end TypeExpr
end AmbientDecl
