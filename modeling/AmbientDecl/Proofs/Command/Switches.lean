/- # A switch on a command line

A switch stands anywhere on a line before the word `--`.  A line that is accepted with a switch and
without it gives the same values and the same other switches (`Grammar.read_insert`).

Both lines are read in step up to the switch.  There it cuts a run of other words in two, and the
part before it is served alone.  If one of the parts is empty, this makes no difference
(`useOperands_split`).  Otherwise the first part closes all positional arguments that may be left
out, so the second one is left over, and the line is refused.  From then on the states differ in
that switch alone (`Beside`), and so do their ends (`Beside.useGroups`).
-/

import AmbientDecl.Command.Arguments
import AmbientDecl.Proofs.Action.Except

namespace AmbientDecl
namespace Command
namespace Grammar

variable {g : Grammar} {key : String} {s s' t t' : State} {operands left more : List Operand}
  {spec : OptionSpec} {value : Value} {use : OptionUse}

/-! States beside each other -/

/-- Arguments that differ in one switch at most. -/
structure ArgumentsBeside (key : String) (a a' : Arguments) : Prop where
  values : a'.values = a.values
  switches : ∀ other, other ≠ key → a'.has other = a.has other

/-- States of reading that differ in one switch at most. -/
structure Beside (key : String) (s s' : State) : Prop where
  arguments : ArgumentsBeside key s.arguments s'.arguments
  isOpen : s'.isOpen = s.isOpen
  hasExtras : s'.hasExtras = s.hasExtras

theorem has_concat (arguments : Arguments) (key other : String) :
    Arguments.has { arguments with switches := arguments.switches ++ [key] } other =
      (arguments.has other || other == key) := by
  simp [Arguments.has, Bool.beq_eq_decide_eq]

theorem beside_serveAll {a a' : Arguments} (h : ArgumentsBeside key a a')
    (positionals : List Positional) (operands : List Operand) :
    Beside key (serveAll a positionals operands) (serveAll a' positionals operands) := by
  induction positionals generalizing a a' operands with
  | nil => exact ⟨h, rfl, rfl⟩
  | cons positional rest ih =>
    rw [serveAll, serveAll]
    cases serve? positional operands with
    | none => exact ⟨h, rfl, rfl⟩
    | some served =>
      obtain ⟨served, operands⟩ := served
      dsimp only
      cases valueOf? served with
      | none => exact ih h operands
      | some value =>
        refine ih ?_ operands
        exact ⟨congrArg (Entries.put positional.key value) h.values, h.switches⟩

theorem Beside.useOperands (h : Beside key s s') (operands : List Operand) (isLast : Bool) :
    Beside key (useOperands s operands isLast) (useOperands s' operands isLast) := by
  unfold Grammar.useOperands
  split
  · exact h
  · have served := beside_serveAll h.arguments s.isOpen operands
    rw [h.isOpen]
    exact ⟨served.arguments, served.isOpen, congrArg₂ or h.hasExtras served.hasExtras⟩

/-- An option is used in the same way in both states, if it is not refused. -/
theorem Beside.useOption (h : Beside key s s') (used : g.useOption s spec value = .ok t)
    (used' : g.useOption s' spec value = .ok t') : Beside key t t' := by
  unfold Grammar.useOption at used used'
  cases kind : spec.kind with
  | help =>
    rw [kind] at used
    cases used
  | value =>
    rw [kind] at used used'
    obtain rfl := Except.ok.inj used
    obtain rfl := Except.ok.inj used'
    refine ⟨⟨?_, h.arguments.switches⟩, h.isOpen, h.hasExtras⟩
    exact congrArg (Entries.put spec.key value) h.arguments.values
  | switch =>
    rw [kind] at used used'
    dsimp only at used used'
    split at used
    · cases used
    split at used'
    · cases used'
    obtain rfl := Except.ok.inj used
    obtain rfl := Except.ok.inj used'
    refine ⟨⟨h.arguments.values, fun other ne => ?_⟩, h.isOpen, h.hasExtras⟩
    rw [has_concat, has_concat, h.arguments.switches other ne]

theorem Beside.useOptions {uses : List (OptionSpec × Value)} (h : Beside key s s')
    (used : uses.foldlM (fun state (spec, value) => g.useOption state spec value) s = .ok t)
    (used' : uses.foldlM (fun state (spec, value) => g.useOption state spec value) s' = .ok t') :
    Beside key t t' := by
  induction uses generalizing s s' with
  | nil =>
    obtain rfl := Except.ok.inj used
    obtain rfl := Except.ok.inj used'
    exact h
  | cons entry rest ih =>
    obtain ⟨between, first, used⟩ := bind_eq_ok.1 (List.foldlM_cons.symm.trans used)
    obtain ⟨between', first', used'⟩ := bind_eq_ok.1 (List.foldlM_cons.symm.trans used')
    exact ih (h.useOption first first') used used'

/-- A word with options is used in the same way in both states. -/
theorem Beside.useWord {left' : List Operand} (h : Beside key s s')
    (used : g.useWord s use operands = .ok (t, left))
    (used' : g.useWord s' use operands = .ok (t', left')) : Beside key t t' ∧ left' = left := by
  unfold Grammar.useWord at used used'
  cases known : use.spec? with
  | none =>
    rw [known] at used used'
    obtain ⟨rfl, rfl⟩ := Prod.mk.inj (Except.ok.inj used)
    obtain ⟨rfl, rfl⟩ := Prod.mk.inj (Except.ok.inj used')
    exact ⟨⟨h.arguments, h.isOpen, rfl⟩, rfl⟩
  | some spec =>
    rw [known] at used used'
    obtain ⟨uses, expanded, used⟩ := bind_eq_ok.1 used
    obtain ⟨uses', expanded', used'⟩ := bind_eq_ok.1 used'
    obtain rfl := Except.ok.inj (expanded.symm.trans expanded')
    obtain ⟨supplied, supply, used⟩ := bind_eq_ok.1 used
    obtain ⟨supplied', supply', used'⟩ := bind_eq_ok.1 used'
    obtain rfl := Except.ok.inj (supply.symm.trans supply')
    obtain ⟨state, steps, used⟩ := bind_eq_ok.1 used
    obtain ⟨state', steps', used'⟩ := bind_eq_ok.1 used'
    obtain ⟨rfl, rfl⟩ := Prod.mk.inj (Except.ok.inj used)
    obtain ⟨rfl, rfl⟩ := Prod.mk.inj (Except.ok.inj used')
    exact ⟨h.useOptions steps steps', rfl⟩

/-- **States beside each other end beside each other.** -/
theorem Beside.useGroups {groups : List (OptionUse × List Operand)} (h : Beside key s s')
    (used : g.useGroups s groups = .ok t) (used' : g.useGroups s' groups = .ok t') :
    Beside key t t' := by
  induction groups generalizing s s' with
  | nil =>
    obtain rfl := Except.ok.inj used
    obtain rfl := Except.ok.inj used'
    exact h
  | cons entry rest ih =>
    obtain ⟨use, operands⟩ := entry
    obtain ⟨⟨between, left⟩, word, used⟩ := bind_eq_ok.1 used
    obtain ⟨⟨between', left'⟩, word', used'⟩ := bind_eq_ok.1 used'
    obtain ⟨beside, rfl⟩ := h.useWord word word'
    exact ih (beside.useOperands _ _) used used'

/-! What options leave alone -/

theorem useOption_keeps (used : g.useOption s spec value = .ok t) :
    t.isOpen = s.isOpen ∧ t.hasExtras = s.hasExtras := by
  unfold Grammar.useOption at used
  split at used
  · cases used
  · rw [← Except.ok.inj used]
    exact ⟨rfl, rfl⟩
  · dsimp only at used
    split at used
    · cases used
    · rw [← Except.ok.inj used]
      exact ⟨rfl, rfl⟩

theorem useOptions_keeps {uses : List (OptionSpec × Value)}
    (used : uses.foldlM (fun state (spec, value) => g.useOption state spec value) s = .ok t) :
    t.isOpen = s.isOpen ∧ t.hasExtras = s.hasExtras := by
  refine keeps_foldlM (P := fun t => t.isOpen = s.isOpen ∧ t.hasExtras = s.hasExtras)
    (fun _ _ before after kept step => ?_) ⟨rfl, rfl⟩ used
  obtain ⟨isOpen, hasExtras⟩ := useOption_keeps step
  exact ⟨isOpen.trans kept.1, hasExtras.trans kept.2⟩

/-- A word with options closes no positional argument, and what is left over stays so. -/
theorem useWord_keeps (used : g.useWord s use operands = .ok (t, left)) :
    t.isOpen = s.isOpen ∧ (s.hasExtras = true → t.hasExtras = true) := by
  unfold Grammar.useWord at used
  split at used
  · rw [← (Prod.mk.inj (Except.ok.inj used)).1]
    exact ⟨rfl, fun _ => rfl⟩
  · obtain ⟨uses, -, used⟩ := bind_eq_ok.1 used
    obtain ⟨supplied, -, used⟩ := bind_eq_ok.1 used
    obtain ⟨state, steps, used⟩ := bind_eq_ok.1 used
    obtain ⟨isOpen, hasExtras⟩ := useOptions_keeps steps
    rw [← (Prod.mk.inj (Except.ok.inj used)).1]
    exact ⟨isOpen, fun extras => hasExtras.trans extras⟩

theorem hasExtras_useOperands (extras : s.hasExtras = true) (operands : List Operand)
    (isLast : Bool) : (useOperands s operands isLast).hasExtras = true := by
  unfold useOperands
  split
  · exact extras
  · exact (congrArg (· || _) extras).trans (Bool.true_or _)

/-- A word that is left over is so at the end of the line. -/
theorem hasExtras_useGroups {groups : List (OptionUse × List Operand)} (extras : s.hasExtras = true)
    (used : g.useGroups s groups = .ok t) : t.hasExtras = true := by
  induction groups generalizing s with
  | nil => rwa [← Except.ok.inj used]
  | cons entry rest ih =>
    obtain ⟨use, operands⟩ := entry
    obtain ⟨⟨between, left⟩, word, used⟩ := bind_eq_ok.1 used
    exact ih (hasExtras_useOperands ((useWord_keeps word).2 extras) _ _) used

/-! The operands of a word -/

/-- A value is found in a longer run as it is in a shorter one, at its start. -/
theorem takeValue_append {attached? : Option (List Char)}
    (taken : takeValue attached? operands = .ok (value, left)) (more : List Operand) :
    takeValue attached? (operands ++ more) = .ok (value, left ++ more) ∧ left <:+ operands := by
  unfold takeValue at taken ⊢
  split at taken
  · obtain ⟨rfl, rfl⟩ := Prod.mk.inj (Except.ok.inj taken)
    exact ⟨rfl, List.suffix_rfl⟩
  · obtain ⟨rfl, rfl⟩ := Prod.mk.inj (Except.ok.inj taken)
    exact ⟨rfl, List.suffix_cons _ _⟩
  · cases taken

theorem supply_cons (spec : OptionSpec) (attached? : Option (List Char))
    (rest : List (OptionSpec × Option (List Char))) (operands : List Operand) :
    supply ((spec, attached?) :: rest) operands = (do
      let (value, operands) ← (if spec.kind = .value then takeValue attached? operands
        else .ok (.wordless, operands) : Except Stop (Value × List Operand))
      let (uses, operands) ← supply rest operands
      return ((spec, value) :: uses, operands)) := by
  rw [supply]
  by_cases isValue : spec.kind = .value
  · rw [if_pos isValue, if_pos isValue]
  · rw [if_neg isValue, if_neg isValue]

/-- An option without a text attached to it is used when it finds its value and acts on it. -/
theorem useWord_alone_eq_ok {name : String} :
    g.useWord s ⟨some spec, name, none⟩ operands = .ok (t, left) ↔
      ∃ value, (if spec.kind = .value then takeValue none operands else .ok (.wordless, operands)) =
          .ok (value, left) ∧ g.useOption s spec value = .ok t := by
  have expanded : g.expand spec name none = .ok [(spec, none)] := by simp [expand]
  have acted (value : Value) :
      [(spec, value)].foldlM (fun state (spec, value) => g.useOption state spec value) s =
        g.useOption s spec value := by simp
  unfold Grammar.useWord
  dsimp only
  rw [expanded, bind_ok, supply_cons]
  constructor
  · intro used
    obtain ⟨⟨uses, left'⟩, supplied, used⟩ := bind_eq_ok.1 used
    obtain ⟨⟨value, left''⟩, taken, supplied⟩ := bind_eq_ok.1 supplied
    obtain ⟨rfl, rfl⟩ := Prod.mk.inj (Except.ok.inj supplied)
    obtain ⟨state, steps, used⟩ := bind_eq_ok.1 used
    obtain ⟨rfl, rfl⟩ := Prod.mk.inj (Except.ok.inj used)
    exact ⟨value, taken, (acted value).symm.trans steps⟩
  · rintro ⟨value, taken, used⟩
    refine bind_eq_ok.2 ⟨([(spec, value)], left), ?_, ?_⟩
    · exact bind_eq_ok.2 ⟨(value, left), taken, rfl⟩
    · exact bind_eq_ok.2 ⟨t, (acted value).trans used, rfl⟩

theorem supply_append {uses : List (OptionSpec × Option (List Char))}
    {supplied : List (OptionSpec × Value)}
    (taken : supply uses operands = .ok (supplied, left)) (more : List Operand) :
    supply uses (operands ++ more) = .ok (supplied, left ++ more) ∧ left <:+ operands := by
  induction uses generalizing operands supplied with
  | nil =>
    obtain ⟨rfl, rfl⟩ := Prod.mk.inj (Except.ok.inj taken)
    exact ⟨rfl, List.suffix_rfl⟩
  | cons entry rest ih =>
    obtain ⟨spec, attached?⟩ := entry
    rw [supply_cons] at taken ⊢
    obtain ⟨⟨value, between⟩, first, taken⟩ := bind_eq_ok.1 taken
    obtain ⟨⟨others, left'⟩, after, taken⟩ := bind_eq_ok.1 taken
    obtain ⟨rfl, rfl⟩ := Prod.mk.inj (Except.ok.inj taken)
    obtain ⟨after', others_suffix⟩ := ih after
    have first' : (if spec.kind = .value then takeValue attached? (operands ++ more)
        else .ok (.wordless, operands ++ more)) = .ok (value, between ++ more) ∧
          between <:+ operands := by
      split at first
      · rename_i isValue
        rw [if_pos isValue]
        exact takeValue_append first more
      · rename_i other
        obtain ⟨rfl, rfl⟩ := Prod.mk.inj (Except.ok.inj first)
        rw [if_neg other]
        exact ⟨rfl, List.suffix_rfl⟩
    refine ⟨?_, others_suffix.trans first'.2⟩
    exact bind_eq_ok.2 ⟨_, first'.1, bind_eq_ok.2 ⟨_, after', rfl⟩⟩

/-- The values of a word are found in a longer run as they are in a shorter one. -/
theorem useWord_append (used : g.useWord s use operands = .ok (t, left)) (more : List Operand) :
    g.useWord s use (operands ++ more) = .ok (t, left ++ more) ∧ left <:+ operands := by
  unfold Grammar.useWord at used ⊢
  split at used
  · obtain ⟨rfl, rfl⟩ := Prod.mk.inj (Except.ok.inj used)
    exact ⟨rfl, List.suffix_rfl⟩
  · obtain ⟨uses, expanded, used⟩ := bind_eq_ok.1 used
    obtain ⟨⟨supplied, left'⟩, supply, used⟩ := bind_eq_ok.1 used
    obtain ⟨state, steps, used⟩ := bind_eq_ok.1 used
    obtain ⟨rfl, rfl⟩ := Prod.mk.inj (Except.ok.inj used)
    obtain ⟨supply', suffix⟩ := supply_append supply more
    refine ⟨?_, suffix⟩
    exact bind_eq_ok.2 ⟨_, expanded, bind_eq_ok.2 ⟨_, supply', bind_eq_ok.2 ⟨_, steps, rfl⟩⟩⟩

/-! A run of operands cut in two -/

/-- All positional arguments but the first one may be left out. -/
def OptionalTail (positionals : List Positional) : Prop :=
  ∀ positional ∈ positionals.tail, positional.isRequired = false

/-- No operand is the first `--` of the line. -/
def AllTexts (operands : List Operand) : Prop :=
  ∀ operand ∈ operands, operand ≠ .dashes

theorem serve?_text (positional : Positional) (text : String) (operands : List Operand) :
    serve? positional (.text text :: operands) =
      some (.text text :: operands.takeWhile (· = .dashes), operands.dropWhile (· = .dashes)) := by
  simp [serve?]

/-- Arguments that may be left out are closed by any run. -/
theorem isOpen_serveAll_optional {positionals : List Positional} (a : Arguments)
    (optional : ∀ positional ∈ positionals, positional.isRequired = false)
    (texts : AllTexts operands) : (serveAll a positionals operands).isOpen = [] := by
  induction positionals generalizing a operands with
  | nil => rfl
  | cons positional rest ih =>
    obtain ⟨first, optional⟩ := List.forall_mem_cons.1 optional
    obtain ⟨served, after, serves, texts'⟩ : ∃ served after,
        serve? positional operands = some (served, after) ∧ AllTexts after := by
      cases operands with
      | nil => exact ⟨[], [], by simp [serve?, first], fun _ mem => absurd mem List.not_mem_nil⟩
      | cons operand more =>
        cases operand with
        | dashes => exact absurd rfl (texts _ List.mem_cons_self)
        | text text =>
          refine ⟨_, _, serve?_text positional text more, fun operand mem => ?_⟩
          exact texts operand (List.mem_cons_of_mem _ ((List.dropWhile_sublist _).subset mem))
    rw [serveAll, serves]
    dsimp only
    split
    · exact ih _ optional texts'
    · exact ih _ optional texts'

/-- A run of words closes all arguments, if only the first one cannot be left out. -/
theorem isOpen_serveAll {positionals : List Positional} (a : Arguments)
    (tail : OptionalTail positionals) (texts : AllTexts operands) (some : operands ≠ []) :
    (serveAll a positionals operands).isOpen = [] := by
  obtain ⟨operand, more, rfl⟩ := List.exists_cons_of_ne_nil some
  cases operand with
  | dashes => exact absurd rfl (texts _ List.mem_cons_self)
  | text text =>
    cases positionals with
    | nil => rfl
    | cons positional rest =>
      have texts' : AllTexts (more.dropWhile (· = .dashes)) := fun operand mem =>
        texts operand (List.mem_cons_of_mem _ ((List.dropWhile_sublist _).subset mem))
      rw [serveAll, serve?_text]
      dsimp only
      split
      · exact isOpen_serveAll_optional _ tail texts'
      · exact isOpen_serveAll_optional _ tail texts'

theorem optionalTail_serveAll {positionals : List Positional} (a : Arguments)
    (tail : OptionalTail positionals) (operands : List Operand) :
    OptionalTail (serveAll a positionals operands).isOpen := by
  induction positionals generalizing a operands with
  | nil => exact tail
  | cons positional rest ih =>
    have tail' : OptionalTail rest := fun other mem => tail other (List.mem_of_mem_tail mem)
    rw [serveAll]
    split
    · exact tail
    · split
      · exact ih _ tail' _
      · exact ih _ tail' _

theorem OptionalTail.useOperands (tail : OptionalTail s.isOpen) (operands : List Operand)
    (isLast : Bool) : OptionalTail (useOperands s operands isLast).isOpen := by
  unfold Grammar.useOperands
  split
  · exact tail
  · exact optionalTail_serveAll _ tail _

theorem useOperands_nil (s : State) : useOperands s [] false = s := rfl

theorem useOperands_of_some (some : operands ≠ []) (s : State) (isLast : Bool) :
    useOperands s operands isLast =
      { serveAll s.arguments s.isOpen operands with
        hasExtras := s.hasExtras || (serveAll s.arguments s.isOpen operands).hasExtras } := by
  rw [useOperands, if_neg fun h => some h.1]

/-- Where no argument is open, an empty run changes nothing. -/
theorem useOperands_of_closed (closed : s.isOpen = []) (isLast : Bool) :
    useOperands s [] isLast = s := by
  obtain ⟨arguments, isOpen, hasExtras⟩ := s
  obtain rfl : isOpen = [] := closed
  cases isLast <;> simp [useOperands, serveAll]

/-- **A run that is cut in two** is used up as before, or a word of it is left over. -/
theorem useOperands_split (tail : OptionalTail s.isOpen) (texts : AllTexts operands)
    (more : List Operand) (isLast : Bool) :
    useOperands (useOperands s operands false) more isLast =
        useOperands s (operands ++ more) isLast ∨
      (useOperands (useOperands s operands false) more isLast).hasExtras = true := by
  by_cases before : operands = []
  · left
    rw [before, List.nil_append, useOperands_nil]
  · have closed : (useOperands s operands false).isOpen = [] := by
      rw [useOperands_of_some before]
      exact isOpen_serveAll _ tail texts before
    by_cases after : more = []
    · left
      rw [after, List.append_nil, useOperands_of_closed closed]
      rw [useOperands_of_some before, useOperands_of_some before]
    · right
      rw [useOperands_of_some after, closed]
      simp [serveAll, after]

/-! The line -/

/-- Reads the words that follow an option, or the start of the line, and operands after it. -/
def resume (g : Grammar) (s : State) (use? : Option OptionUse) (operands : List Operand)
    (words : List Word) : Except Stop State :=
  match use? with
  | none =>
    g.useGroups (useOperands s (operands ++ (group words).1) (group words).2.isEmpty)
      (group words).2
  | some use => g.useGroups s ((use, operands ++ (group words).1) :: (group words).2)

variable {use? : Option OptionUse} {words : List Word}

theorem resume_operand (operand : Operand) : g.resume s use? operands (.operand operand :: words) =
    g.resume s use? (operands ++ [operand]) words := by
  have grouped : group (.operand operand :: words) =
      (operand :: (group words).1, (group words).2) := rfl
  cases use? <;> simp [resume, grouped]

theorem resume_none_option (use : OptionUse) :
    g.resume s none operands (.option use :: words) =
      g.resume (useOperands s operands false) (some use) [] words := by
  have grouped : group (.option use :: words) =
      ([], (use, (group words).1) :: (group words).2) := rfl
  simp [resume, grouped]

theorem resume_some_option (first use : OptionUse) :
    g.resume s (some first) operands (.option use :: words) = (do
      let (s, left) ← g.useWord s first operands
      g.resume (useOperands s left false) (some use) [] words) := by
  have grouped : group (.option use :: words) =
      ([], (use, (group words).1) :: (group words).2) := rfl
  simp only [resume, grouped, List.append_nil, List.nil_append]
  rfl

/-- A switch leaves the operands after it alone. -/
theorem useWord_switch {name : String} (switch : spec.kind = .switch)
    (used : g.useWord s ⟨some spec, name, none⟩ operands = .ok (t, left)) :
    Beside spec.key s t ∧ left = operands := by
  obtain ⟨value, taken, step⟩ := useWord_alone_eq_ok.1 used
  rw [if_neg (by rw [switch]; decide)] at taken
  obtain ⟨rfl, rfl⟩ := Prod.mk.inj (Except.ok.inj taken)
  unfold Grammar.useOption at step
  rw [switch] at step
  dsimp only at step
  split at step
  · cases step
  · obtain rfl := Except.ok.inj step
    refine ⟨⟨⟨rfl, fun other ne => ?_⟩, rfl, rfl⟩, rfl⟩
    rw [has_concat, beq_eq_false_iff_ne.2 ne, Bool.or_false]

/-- Where a switch is put into a line, the rest of the line is read as without it. -/
theorem beside_of_cut {name : String} {groups : List (OptionUse × List Operand)}
    (switch : spec.kind = .switch) (tail : OptionalTail s.isOpen) (texts : AllTexts operands)
    (line : g.useGroups (useOperands s (operands ++ more) groups.isEmpty) groups = .ok t)
    (line' : g.useGroups (useOperands s operands false)
      ((⟨some spec, name, none⟩, more) :: groups) = .ok t')
    (all : t'.hasExtras = false) : Beside spec.key t t' := by
  obtain ⟨⟨between, left⟩, word, goesOn⟩ := bind_eq_ok.1 line'
  obtain ⟨beside, rfl⟩ := useWord_switch switch word
  have beside := beside.useOperands left groups.isEmpty
  rcases useOperands_split tail texts left groups.isEmpty with same | extras
  · rw [same] at beside
    exact beside.useGroups line goesOn
  · have extras' := hasExtras_useGroups (beside.hasExtras.trans extras) goesOn
    rw [all] at extras'
    cases extras'

/-- The lines with and without a switch are read in step up to it. -/
theorem beside_resume {name : String} {before after : List Word} (switch : spec.kind = .switch)
    (tail : OptionalTail s.isOpen) (texts : AllTexts operands)
    (words : ∀ operand, .operand operand ∈ before → operand ≠ .dashes)
    (line : g.resume s use? operands (before ++ after) = .ok t)
    (line' : g.resume s use? operands
      (before ++ .option ⟨some spec, name, none⟩ :: after) = .ok t')
    (all : t'.hasExtras = false) : Beside spec.key t t' := by
  induction before generalizing s use? operands with
  | nil =>
    cases use? with
    | none =>
      rw [List.nil_append, resume_none_option] at line'
      exact beside_of_cut switch tail texts line line' all
    | some use =>
      rw [List.nil_append, resume_some_option] at line'
      obtain ⟨⟨between, left⟩, word, line'⟩ := bind_eq_ok.1 line'
      obtain ⟨⟨between', left'⟩, word', line⟩ := bind_eq_ok.1 line
      obtain ⟨longer, ends⟩ := useWord_append word (group after).1
      obtain ⟨rfl, rfl⟩ := Prod.mk.inj (Except.ok.inj (longer.symm.trans word'))
      have tail' : OptionalTail between.isOpen := (useWord_keeps word).1 ▸ tail
      exact beside_of_cut switch tail' (fun operand mem => texts operand (ends.subset mem))
        line line' all
  | cons first before ih =>
    have words' := fun operand mem => words operand (List.mem_cons_of_mem _ mem)
    cases first with
    | operand operand =>
      rw [List.cons_append, resume_operand] at line line'
      refine ih tail (fun other mem => ?_) words' line line'
      rcases List.mem_append.1 mem with mem | mem
      · exact texts other mem
      · exact List.mem_singleton.1 mem ▸ words operand List.mem_cons_self
    | option use =>
      have none_texts : AllTexts [] := fun _ mem => absurd mem List.not_mem_nil
      cases use? with
      | none =>
        rw [List.cons_append, resume_none_option] at line line'
        exact ih (tail.useOperands _ _) none_texts words' line line'
      | some earlier =>
        rw [List.cons_append, resume_some_option] at line line'
        obtain ⟨⟨between, left⟩, word, line⟩ := bind_eq_ok.1 line
        obtain ⟨⟨between', left'⟩, word', line'⟩ := bind_eq_ok.1 line'
        obtain ⟨rfl, rfl⟩ := Prod.mk.inj (Except.ok.inj (word.symm.trans word'))
        have tail' : OptionalTail between.isOpen := (useWord_keeps word).1 ▸ tail
        exact ih (tail'.useOperands _ _) none_texts words' line line'

/-- A word before any `--` is no `--`, whatever it is classed as. -/
theorem ne_dashes_of_classify? {word : String} {operand : Operand}
    (h : g.classify? word = some (.operand operand)) : operand ≠ .dashes := by
  rintro rfl
  unfold classify? at h
  grind

/-- The words of a line before any `--` are classed one by one. -/
theorem exists_classifyAll? {before after : List String} {words : List Word}
    (noDashes : "--" ∉ before) (h : g.classifyAll? (before ++ after) = some words) :
    ∃ first rest, g.classifyAll? before = some first ∧ g.classifyAll? after = some rest ∧
      words = first ++ rest ∧ ∀ operand, .operand operand ∈ first → operand ≠ .dashes := by
  induction before generalizing words with
  | nil => exact ⟨[], words, rfl, h, rfl, fun _ mem => absurd mem List.not_mem_nil⟩
  | cons word before ih =>
    have other : word ≠ "--" := fun same => noDashes (same ▸ List.mem_cons_self)
    rw [List.cons_append, classifyAll?, if_neg other] at h
    obtain ⟨class', classed, h⟩ := Option.bind_eq_some_iff.1 h
    obtain ⟨more, goesOn, h⟩ := Option.bind_eq_some_iff.1 h
    obtain rfl := Option.some.inj h
    obtain ⟨first, rest, classes, after', rfl, texts⟩ :=
      ih (fun mem => noDashes (List.mem_cons_of_mem _ mem)) goesOn
    refine ⟨class' :: first, rest, ?_, after', rfl, fun operand mem => ?_⟩
    · rw [classifyAll?, if_neg other, classed, classes]
      rfl
    · rcases List.mem_cons.1 mem with rfl | mem
      · exact ne_dashes_of_classify? classed
      · exact texts operand mem

/-- What a line gives that is read to its end. -/
theorem exists_resume {line : List String} {arguments : Arguments}
    (h : g.read line = .accepted arguments) :
    ∃ words t, g.classifyAll? line = some words ∧
      g.resume ⟨⟨[], []⟩, g.positionals, false⟩ none [] words = .ok t ∧
      t.arguments = arguments ∧ t.hasExtras = false := by
  unfold read at h
  split at h
  · cases h
  · rename_i words classed
    dsimp only at h
    split at h
    · rename_i t used
      refine ⟨words, t, classed, used, ?_⟩
      unfold conclude at h
      split at h
      · cases h
      · rename_i all
        exact ⟨Reading.accepted.inj h, by simp_all⟩
    · cases h
    · cases h

/-- **A switch changes nothing but itself.**  Let all positional arguments but the first one be such
that they may be left out.  Two lines that are accepted, one of them with a word for a switch that
the other one has not, give the same values and the same other switches. -/
theorem read_insert {word name : String} {before after : List String} {a a' : Arguments}
    (tail : OptionalTail g.positionals) (switch : spec.kind = .switch)
    (option : g.classify? word = some (.option ⟨some spec, name, none⟩)) (other : word ≠ "--")
    (noDashes : "--" ∉ before) (line : g.read (before ++ after) = .accepted a)
    (line' : g.read (before ++ word :: after) = .accepted a') :
    ArgumentsBeside spec.key a a' := by
  obtain ⟨words, t, classed, used, rfl, -⟩ := exists_resume line
  obtain ⟨words', t', classed', used', rfl, all⟩ := exists_resume line'
  obtain ⟨first, rest, classes, classesAfter, rfl, texts⟩ := exists_classifyAll? noDashes classed
  obtain ⟨first', rest', classes', classesAfter', rfl, -⟩ := exists_classifyAll? noDashes classed'
  obtain rfl := Option.some.inj (classes.symm.trans classes')
  rw [classifyAll?, if_neg other, option, classesAfter] at classesAfter'
  obtain rfl := Option.some.inj classesAfter'
  exact (beside_resume switch tail (fun _ mem => absurd mem List.not_mem_nil) texts used used'
    all).arguments

end Grammar
end Command
end AmbientDecl
