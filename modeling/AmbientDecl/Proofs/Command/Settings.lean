/- # Lines that are written plainly

A plain line gives a word for every positional argument, and after them options by their names, each
with its value as the next word.  Such a line is read as it is meant (`Grammar.read_plain`).

Words without a dash in front are classed as words, and the name of an option as that option, so the
words after the name of an option are those that it was written with (`exists_use`).  The words
before the first option serve the positional arguments one by one (`serveAll_texts`), and as none of
these is left open, the options after them change nothing but their own values
(`exists_useGroups`).
-/

import AmbientDecl.Proofs.Command.Switches

namespace AmbientDecl
namespace Command

/-- Whether a word starts with a dash. -/
def isDashed (word : String) : Bool := word.toList.head? == some '-'

theorem isDashed_append {text rest : String} (plain : isDashed text = false)
    (plain' : isDashed rest = false) : isDashed (text ++ rest) = false := by
  unfold isDashed at *
  rw [String.toList_append]
  cases h : text.toList <;> simp_all

/-- Something that a line gives: a switch, or a value for an option or an argument. -/
inductive Setting where
  | switch (key : String)
  | value (key text : String)
  deriving DecidableEq

namespace Setting

/-- The words of an option that is given by its name. -/
def words : Setting → List String
  | switch key => [key]
  | value key text => [key, text]

/-- The arguments with what is given. -/
def apply (arguments : Arguments) : Setting → Arguments
  | switch key => { arguments with switches := arguments.switches ++ [key] }
  | value key text => { arguments with values := Entries.put key (.word text) arguments.values }

variable (arguments : Arguments) (key text other : String)

@[simp] theorem has_apply_switch :
    (apply arguments (switch key)).has other = (arguments.has other || other == key) :=
  Grammar.has_concat arguments key other

@[simp] theorem text?_apply_switch : (apply arguments (switch key)).text? other =
    arguments.text? other := rfl

@[simp] theorem has_apply_value : (apply arguments (value key text)).has other =
    arguments.has other := rfl

@[simp] theorem text?_apply_value : (apply arguments (value key text)).text? other =
    if key = other then some text else arguments.text? other := by
  rw [Arguments.text?, Arguments.value?, apply, Entries.get?_put]
  split <;> rfl

end Setting

namespace Grammar

variable {g : Grammar} {key text : String} {spec : OptionSpec} {setting : Setting}
  {settings : List Setting} {texts rest : List String}

/-- The name of an option, which stands for it. -/
structure IsKey (g : Grammar) (key : String) (spec : OptionSpec) : Prop where
  found : Entries.get? key g.names = some spec
  same : spec.key = key
  dashed : isDashed key = true
  other : key ≠ "--"

/-- An option of the grammar that can be written plainly: a switch that excludes no other one, or an
option with a value that starts with no dash. -/
def Takes (g : Grammar) : Setting → Prop
  | .switch key => ∃ spec, g.IsKey key spec ∧ spec.kind = .switch ∧ spec.isExclusive = false
  | .value key text => ∃ spec, g.IsKey key spec ∧ spec.kind = .value ∧ isDashed text = false

/-! ## The classes of plain words -/

theorem classify?_text (plain : isDashed text = false) :
    g.classify? text = some (.operand (.text text)) := by
  have start : text.toList.head? ≠ some '-' := by simpa [isDashed] using plain
  rw [classify?, if_pos start]

theorem classify?_key (h : g.IsKey key spec) :
    g.classify? key = some (.option ⟨some spec, key, none⟩) := by
  have start : ¬ key.toList.head? ≠ some '-' := by simpa [isDashed] using h.dashed
  rw [classify?, if_neg start, h.found]

theorem ne_dashes_of_plain (plain : isDashed text = false) : text ≠ "--" := by
  rintro rfl
  exact absurd plain (by decide)

theorem classifyAll?_cons {word : String} {class' : Word} (other : word ≠ "--")
    (h : g.classify? word = some class') :
    g.classifyAll? (word :: rest) = (g.classifyAll? rest).map (class' :: ·) := by
  rw [classifyAll?, if_neg other, h]
  cases g.classifyAll? rest <;> rfl

theorem classifyAll?_texts (plain : ∀ text ∈ texts, isDashed text = false) :
    g.classifyAll? (texts ++ rest) =
      (g.classifyAll? rest).map (texts.map (fun text => .operand (.text text)) ++ ·) := by
  induction texts with
  | nil => exact Option.map_id'.symm
  | cons text texts ih =>
    obtain ⟨first, plain⟩ := List.forall_mem_cons.1 plain
    rw [List.cons_append, classifyAll?_cons (ne_dashes_of_plain first) (classify?_text first),
      ih plain, Option.map_map]
    rfl

theorem group_operands (operands : List Operand) (words : List Word) :
    group (operands.map .operand ++ words) = (operands ++ (group words).1, (group words).2) := by
  induction operands with
  | nil => rfl
  | cons operand operands ih =>
    rw [List.map_cons, List.cons_append, group, ih]
    rfl

/-! ## Positional arguments -/

/-- A word that is not followed by `--` serves one argument and leaves the words after it. -/
theorem serve?_texts (positional : Positional) (text : String) (texts : List String) :
    serve? positional (.text text :: texts.map .text) =
      some ([.text text], texts.map .text) := by
  rw [serve?_text]
  cases texts <;> simp

theorem valueOf?_text (plain : isDashed text = false) :
    valueOf? [.text text] = some (.word text) := by
  simp [valueOf?, Operand.word, ne_dashes_of_plain plain]

/-- What words say when each of them serves one argument. -/
def served (positionals : List Positional) (texts : List String) : List Setting :=
  List.zipWith (fun positional text => .value positional.key text) positionals texts

/-- **Words serve the positional arguments one by one.** -/
theorem serveAll_texts {positionals : List Positional} (arguments : Arguments)
    (length : texts.length = positionals.length) (plain : ∀ text ∈ texts, isDashed text = false) :
    serveAll arguments positionals (texts.map .text) =
      ⟨(served positionals texts).foldl Setting.apply arguments, [], false⟩ := by
  induction positionals generalizing arguments texts with
  | nil =>
    obtain rfl := List.length_eq_zero_iff.1 length
    rfl
  | cons positional positionals ih =>
    obtain ⟨text, texts, rfl⟩ := List.exists_cons_of_length_eq_add_one length
    obtain ⟨first, plain⟩ := List.forall_mem_cons.1 plain
    rw [List.map_cons, serveAll, serve?_texts]
    dsimp only
    rw [valueOf?_text first]
    exact ih _ (Nat.succ.inj length) plain

/-! ## Options -/

/-- **An option that is written plainly** is classed as that option, and its use takes the words
that it was written with and changes nothing but its own value. -/
theorem exists_use (takes : g.Takes setting) :
    ∃ (use : OptionUse) (operands : List Operand),
      (∀ rest, g.classifyAll? (setting.words ++ rest) =
        (g.classifyAll? rest).map (.option use :: operands.map .operand ++ ·)) ∧
      ∀ state : State, g.useWord state use operands =
        .ok ({ state with arguments := setting.apply state.arguments }, []) := by
  cases setting with
  | switch key =>
    obtain ⟨spec, isKey, switch, alone⟩ := takes
    refine ⟨⟨some spec, key, none⟩, [], fun rest => ?_, fun state => ?_⟩
    · exact classifyAll?_cons isKey.other (classify?_key isKey)
    · obtain rfl := isKey.same
      refine useWord_alone_eq_ok.2 ⟨.wordless, by simp [switch], ?_⟩
      simp [useOption, switch, alone, Setting.apply]
  | value key text =>
    obtain ⟨spec, isKey, isValue, plain⟩ := takes
    refine ⟨⟨some spec, key, none⟩, [.text text], fun rest => ?_, fun state => ?_⟩
    · rw [Setting.words, List.cons_append, classifyAll?_cons isKey.other (classify?_key isKey),
        List.singleton_append, classifyAll?_cons (ne_dashes_of_plain plain) (classify?_text plain),
        Option.map_map]
      rfl
    · obtain rfl := isKey.same
      refine useWord_alone_eq_ok.2 ⟨.word text, by simp [isValue, takeValue], ?_⟩
      simp [useOption, isValue, State.setValue, Setting.apply]

/-- **Options that are written plainly** change nothing but their own values, where no positional
argument is left open. -/
theorem exists_useGroups (takes : ∀ setting ∈ settings, g.Takes setting) :
    ∃ words groups, g.classifyAll? (settings.flatMap Setting.words) = some words ∧
      group words = ([], groups) ∧
      ∀ arguments, g.useGroups ⟨arguments, [], false⟩ groups =
        .ok ⟨settings.foldl Setting.apply arguments, [], false⟩ := by
  induction settings with
  | nil => exact ⟨[], [], rfl, rfl, fun _ => rfl⟩
  | cons setting settings ih =>
    obtain ⟨first, takes⟩ := List.forall_mem_cons.1 takes
    obtain ⟨words, groups, classed, grouped, reads⟩ := ih takes
    obtain ⟨use, operands, classed', uses⟩ := exists_use first
    refine ⟨.option use :: operands.map .operand ++ words, (use, operands) :: groups, ?_, ?_,
      fun arguments => ?_⟩
    · rw [List.flatMap_cons, classed', classed]
      rfl
    · rw [List.cons_append, group, group_operands, grouped]
      simp
    · rw [useGroups, uses, bind_ok]
      dsimp only
      rw [useOperands_of_closed rfl, reads, List.foldl_cons]

/-- **A line that is written plainly is read as it is meant.** -/
theorem read_plain (length : texts.length = g.positionals.length)
    (plain : ∀ text ∈ texts, isDashed text = false)
    (takes : ∀ setting ∈ settings, g.Takes setting) :
    g.read (texts ++ settings.flatMap Setting.words) =
      .accepted ((served g.positionals texts ++ settings).foldl Setting.apply ⟨[], []⟩) := by
  obtain ⟨words, groups, classed, grouped, reads⟩ := exists_useGroups takes
  have start : useOperands ⟨⟨[], []⟩, g.positionals, false⟩ (texts.map .text) groups.isEmpty =
      ⟨(served g.positionals texts).foldl Setting.apply ⟨[], []⟩, [], false⟩ := by
    have served := serveAll_texts ⟨[], []⟩ length plain
    by_cases none : texts = []
    · have closed : g.positionals = [] := by simpa [none] using length.symm
      rw [none, List.map_nil, useOperands_of_closed closed, closed]
      rfl
    · rw [useOperands_of_some (by simpa using none), served]
      rfl
  have grouped' : group (texts.map (fun text => .operand (.text text)) ++ words) =
      (texts.map .text, groups) := by
    have texts' := group_operands (texts.map .text) words
    rw [grouped, List.map_map, List.append_nil] at texts'
    exact texts'
  rw [read, classifyAll?_texts plain, classed, Option.map_some]
  dsimp only
  rw [grouped']
  dsimp only
  rw [start, reads, List.foldl_append]
  rfl

end Grammar
end Command
end AmbientDecl
