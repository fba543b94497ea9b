/- # What a line can give

Whatever is read from a line is known to the grammar: a switch is one of its switches, and a value
belongs to an option with a value or to a positional argument (`Grammar.knows_read`).

A word is classed as an option of the grammar, or as an unknown one that gives nothing
(`known_of_classify?`), and so are the letters that are attached to it (`known_readLetters`).  Each
step of the reading keeps this (`Known.useOperands`, `Known.useWord`), and so does the whole line.
-/

import AmbientDecl.Proofs.Command.Switches
import AmbientDecl.Proofs.Entries

namespace AmbientDecl
namespace Command
namespace Grammar

variable {g : Grammar} {s t : State} {spec : OptionSpec} {value : Value} {arguments : Arguments}
  {operands left : List Operand}

/-- Arguments of which the grammar knows every switch and every value. -/
structure Knows (g : Grammar) (arguments : Arguments) : Prop where
  switches : ∀ key ∈ arguments.switches, ∃ spec ∈ g.options, spec.kind = .switch ∧ spec.key = key
  values : ∀ key ∈ Entries.keys arguments.values,
    (∃ spec ∈ g.options, spec.kind = .value ∧ spec.key = key) ∨
      ∃ positional ∈ g.positionals, positional.key = key

/-- A state of which the grammar knows the arguments and what is still open. -/
structure Known (g : Grammar) (s : State) : Prop where
  arguments : g.Knows s.arguments
  isOpen : s.isOpen ⊆ g.positionals

/-- The use of an option that the grammar has, or of an unknown one. -/
def KnowsUse (g : Grammar) (use : OptionUse) : Prop := ∀ spec ∈ use.spec?, spec ∈ g.options

/-! ## Words -/

theorem mem_options_of_mem_names {name : String} (h : (name, spec) ∈ g.names) :
    spec ∈ g.options := by
  obtain ⟨other, mem, h⟩ := List.mem_flatMap.1 h
  obtain ⟨_, _, same⟩ := List.mem_map.1 h
  rwa [← (Prod.mk.inj same).2]

theorem mem_options_of_get? {name : String} (h : Entries.get? name g.names = some spec) :
    spec ∈ g.options :=
  mem_options_of_mem_names (Entries.mem_of_get? h)

theorem knowsUse_of_mem {name : String} {attached? : Option (List Char)}
    (mem : (name, spec) ∈ g.names) : g.KnowsUse ⟨some spec, name, attached?⟩ := by
  rintro _ ⟨⟩
  exact mem_options_of_mem_names mem

theorem knowsUse_of_longMatches {word : List Char} {use : OptionUse}
    (h : use ∈ g.longMatches word) : g.KnowsUse use := by
  rw [longMatches] at h
  generalize cutAtEquals word = cut at h
  obtain ⟨⟨name, spec⟩, mem, matched⟩ := List.mem_filterMap.1 h
  dsimp only at matched
  split at matched
  · exact Option.some.inj matched ▸ knowsUse_of_mem mem
  · cases matched

theorem knowsUse_of_shortMatches {word : List Char} {use : OptionUse}
    (h : use ∈ g.shortMatches word) : g.KnowsUse use := by
  obtain ⟨⟨name, spec⟩, mem, matched⟩ := List.mem_filterMap.1 h
  dsimp only at matched
  split at matched
  · exact Option.some.inj matched ▸ knowsUse_of_mem mem
  · split at matched
    · exact Option.some.inj matched ▸ knowsUse_of_mem mem
    · cases matched

/-- A word is classed as an option of the grammar, or as an unknown one. -/
theorem knowsUse_of_classify? {word : String} {use : OptionUse}
    (h : g.classify? word = some (.option use)) : g.KnowsUse use := by
  unfold classify? at h
  dsimp only at h
  split at h
  · cases h
  split at h
  · rename_i found
    cases h
    exact knowsUse_of_mem (Entries.mem_of_get? found)
  split at h
  · cases h
  split at h
  · rename_i found
    cases h
    obtain ⟨_, _, found⟩ := Option.bind_eq_some_iff.1 found
    exact knowsUse_of_mem (Entries.mem_of_get? found)
  split at h
  · rename_i only
    cases h
    split at only
    · exact knowsUse_of_longMatches (only ▸ List.mem_singleton_self _)
    · exact knowsUse_of_shortMatches (only ▸ List.mem_singleton_self _)
  · cases h
  · split at h
    · cases h
    · cases h
      rintro _ ⟨⟩

theorem knowsUse_of_classifyAll? {line : List String} {words : List Word}
    (h : g.classifyAll? line = some words) : ∀ use, .option use ∈ words → g.KnowsUse use := by
  induction line generalizing words with
  | nil =>
    obtain rfl := Option.some.inj h
    exact fun _ mem => absurd mem List.not_mem_nil
  | cons word line ih =>
    rw [classifyAll?] at h
    split at h
    · obtain rfl := Option.some.inj h
      intro use mem
      simp at mem
    · obtain ⟨class', classed, h⟩ := Option.bind_eq_some_iff.1 h
      obtain ⟨more, rest, h⟩ := Option.bind_eq_some_iff.1 h
      obtain rfl := Option.some.inj h
      intro use mem
      rcases List.mem_cons.1 mem with rfl | mem
      · exact knowsUse_of_classify? classed
      · exact ih rest use mem

theorem mem_of_mem_group {words : List Word} {use : OptionUse} {operands : List Operand}
    (mem : (use, operands) ∈ (group words).2) : .option use ∈ words := by
  induction words with
  | nil => exact absurd mem List.not_mem_nil
  | cons word words ih =>
    cases word with
    | operand operand => exact List.mem_cons_of_mem _ (ih mem)
    | option other =>
      rcases List.mem_cons.1 mem with same | mem
      · rw [(Prod.mk.inj same).1]
        exact List.mem_cons_self
      · exact List.mem_cons_of_mem _ (ih mem)

/-! ## Options -/

/-- The letters attached to a switch stand for options of the grammar. -/
theorem mem_options_of_readLetters {letters : List Char}
    {uses : List (OptionSpec × Option (List Char))} (h : g.readLetters letters = .ok uses) :
    ∀ use ∈ uses, use.1 ∈ g.options := by
  induction letters generalizing uses with
  | nil =>
    obtain rfl := Except.ok.inj h
    exact fun _ mem => absurd mem List.not_mem_nil
  | cons c letters ih =>
    rw [readLetters] at h
    split at h
    · cases h
    · rename_i spec found
      have known := mem_options_of_get? found
      split at h
      · obtain rfl := Except.ok.inj h
        simpa using known
      · obtain ⟨more, rest, h⟩ := bind_eq_ok.1 h
        obtain rfl := Except.ok.inj h
        exact List.forall_mem_cons.2 ⟨known, ih rest⟩

theorem mem_options_of_expand {name : String} {attached? : Option (List Char)}
    {uses : List (OptionSpec × Option (List Char))} (known : spec ∈ g.options)
    (h : g.expand spec name attached? = .ok uses) : ∀ use ∈ uses, use.1 ∈ g.options := by
  unfold expand at h
  split at h
  · obtain rfl := Except.ok.inj h
    simpa using known
  · split at h
    · obtain rfl := Except.ok.inj h
      simpa using known
    · split at h
      · cases h
      · obtain ⟨more, rest, h⟩ := bind_eq_ok.1 h
        obtain rfl := Except.ok.inj h
        exact List.forall_mem_cons.2 ⟨known, mem_options_of_readLetters rest⟩

/-- Values are found for the options of a word and for no others. -/
theorem map_fst_supply {uses : List (OptionSpec × Option (List Char))}
    {supplied : List (OptionSpec × Value)} (h : supply uses operands = .ok (supplied, left)) :
    supplied.map Prod.fst = uses.map Prod.fst := by
  induction uses generalizing operands supplied with
  | nil =>
    obtain ⟨rfl, -⟩ := Prod.mk.inj (Except.ok.inj h)
    rfl
  | cons entry rest ih =>
    obtain ⟨spec, attached?⟩ := entry
    rw [supply_cons] at h
    obtain ⟨⟨value, between⟩, -, h⟩ := bind_eq_ok.1 h
    obtain ⟨⟨others, left'⟩, after, h⟩ := bind_eq_ok.1 h
    obtain ⟨rfl, rfl⟩ := Prod.mk.inj (Except.ok.inj h)
    exact congrArg (spec :: ·) (ih after)

theorem Knows.put (h : g.Knows arguments) {key : String}
    (known : (∃ spec ∈ g.options, spec.kind = .value ∧ spec.key = key) ∨
      ∃ positional ∈ g.positionals, positional.key = key) (value : Value) :
    g.Knows { arguments with values := Entries.put key value arguments.values } := by
  refine ⟨h.switches, fun other mem => ?_⟩
  rw [Entries.keys_put] at mem
  split at mem
  · exact h.values other mem
  · rcases List.mem_append.1 mem with mem | mem
    · exact h.values other mem
    · exact List.mem_singleton.1 mem ▸ known

/-- An option that is used gives a switch or a value of its own. -/
theorem Known.useOption (h : g.Known s) (known : spec ∈ g.options)
    (used : g.useOption s spec value = .ok t) : g.Known t := by
  unfold Grammar.useOption at used
  cases kind : spec.kind with
  | help =>
    rw [kind] at used
    cases used
  | value =>
    rw [kind] at used
    obtain rfl := Except.ok.inj used
    exact ⟨h.arguments.put (.inl ⟨spec, known, kind, rfl⟩) value, h.isOpen⟩
  | switch =>
    rw [kind] at used
    dsimp only at used
    split at used
    · cases used
    · obtain rfl := Except.ok.inj used
      refine ⟨⟨fun key mem => ?_, h.arguments.values⟩, h.isOpen⟩
      rcases List.mem_append.1 mem with mem | mem
      · exact h.arguments.switches key mem
      · exact ⟨spec, known, kind, (List.mem_singleton.1 mem).symm⟩

/-- The options of a word give switches and values of the grammar. -/
theorem Known.useWord {use : OptionUse} (h : g.Known s) (known : g.KnowsUse use)
    (used : g.useWord s use operands = .ok (t, left)) : g.Known t := by
  unfold Grammar.useWord at used
  split at used
  · obtain ⟨rfl, -⟩ := Prod.mk.inj (Except.ok.inj used)
    exact ⟨h.arguments, h.isOpen⟩
  · rename_i spec found
    obtain ⟨uses, expanded, used⟩ := bind_eq_ok.1 used
    obtain ⟨⟨supplied, between⟩, supply, used⟩ := bind_eq_ok.1 used
    obtain ⟨state, steps, used⟩ := bind_eq_ok.1 used
    obtain ⟨rfl, -⟩ := Prod.mk.inj (Except.ok.inj used)
    have specs := mem_options_of_expand (known spec found) expanded
    have specs' : ∀ use ∈ supplied, use.1 ∈ g.options :=
      List.forall_mem_map.1 (map_fst_supply supply ▸ List.forall_mem_map.2 specs)
    exact keeps_foldlM (fun use mem _ _ kept step => kept.useOption (specs' use mem) step) h steps

/-! ## Operands and the line -/

theorem known_serveAll {positionals : List Positional} (h : g.Knows arguments)
    (mem : positionals ⊆ g.positionals) (operands : List Operand) :
    g.Known (serveAll arguments positionals operands) := by
  induction positionals generalizing arguments operands with
  | nil => exact ⟨h, mem⟩
  | cons positional rest ih =>
    obtain ⟨first, mem'⟩ := List.cons_subset.1 mem
    rw [serveAll]
    split
    · exact ⟨h, mem⟩
    · split
      · exact ih (h.put (.inr ⟨positional, first, rfl⟩) _) mem' _
      · exact ih h mem' _

theorem Known.useOperands (h : g.Known s) (operands : List Operand) (isLast : Bool) :
    g.Known (useOperands s operands isLast) := by
  unfold Grammar.useOperands
  split
  · exact h
  · have served := known_serveAll h.arguments h.isOpen operands
    exact ⟨served.arguments, served.isOpen⟩

theorem Known.useGroups {groups : List (OptionUse × List Operand)} (h : g.Known s)
    (known : ∀ entry ∈ groups, g.KnowsUse entry.1) (used : g.useGroups s groups = .ok t) :
    g.Known t := by
  induction groups generalizing s with
  | nil => exact Except.ok.inj used ▸ h
  | cons entry rest ih =>
    obtain ⟨use, operands⟩ := entry
    obtain ⟨first, known⟩ := List.forall_mem_cons.1 known
    obtain ⟨⟨between, left⟩, word, used⟩ := bind_eq_ok.1 used
    exact ih ((h.useWord first word).useOperands _ _) known used

/-- **What is read from a line is known to the grammar.** -/
theorem knows_read {line : List String} (h : g.read line = .accepted arguments) :
    g.Knows arguments := by
  obtain ⟨words, t, classed, used, rfl, -⟩ := exists_resume h
  have nothing : g.Known ⟨⟨[], []⟩, g.positionals, false⟩ :=
    ⟨⟨fun _ mem => absurd mem List.not_mem_nil, fun _ mem => absurd mem List.not_mem_nil⟩,
      List.Subset.refl _⟩
  have uses := knowsUse_of_classifyAll? classed
  refine (Known.useGroups (nothing.useOperands _ _) (fun entry mem => ?_) used).arguments
  exact uses entry.1 (mem_of_mem_group mem)

end Grammar
end Command
end AmbientDecl
