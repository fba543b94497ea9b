/- # What the pipeline hands over

A command of the pipeline is run when all commands before it have succeeded, and the status of the
pipeline is the first one that is not zero (`getElem?_commands_runSteps`, `status_runSteps`).

The converter is started with a plain line: the document and the output, and then the configuration,
the report and the switch for a strict run, as far as they are given.  So its own grammar reads it
as it is meant (`Grammar.read_plain`), if no value that is handed over looks like an option.
Together with what the grammar of the pipeline knows (`Grammar.knows_read`), nothing that a line
gives gets lost (`run_handsOver`).
-/

import AmbientDecl.Command.Converter
import AmbientDecl.Command.Pipeline
import AmbientDecl.Proofs.Command.Known
import AmbientDecl.Proofs.Command.Settings

namespace AmbientDecl
namespace Command
namespace Pipeline

variable {site : Site} {options : Options}

/-! ## The commands of a run -/

/-- The status that a command returns, by its place in a run. -/
def statusAt (statuses : List Int) (i : Nat) : Int := statuses[i]?.getD 0

/-- **A command is run when all commands before it have succeeded.** -/
theorem getElem?_commands_runSteps (last : String) (steps : List Step) (statuses : List Int)
    (i : Nat) : (runSteps last steps statuses).commands[i]? =
      if ∀ j < i, statusAt statuses j = 0 then (steps.map Step.words)[i]? else none := by
  induction steps generalizing statuses i with
  | nil => simp [runSteps]
  | cons step rest ih =>
    have first : statuses.headD 0 = statusAt statuses 0 := by cases statuses <;> rfl
    have later (j : Nat) : statusAt statuses (j + 1) = statusAt statuses.tail j := by
      cases statuses <;> rfl
    rw [runSteps, first]
    dsimp only
    cases i with
    | zero => split <;> simp
    | succ i =>
      simp only [Nat.forall_lt_succ_left, later]
      split
      · rename_i succeeds
        simpa [succeeds] using ih statuses.tail i
      · rename_i fails
        rw [if_neg fun all => fails all.1]
        rfl

/-- **The status is the first one that is not zero.** -/
theorem status_runSteps (last : String) (steps : List Step) (statuses : List Int) :
    (runSteps last steps statuses).status =
      ((statuses.take steps.length).find? (· ≠ 0)).getD 0 := by
  induction steps generalizing statuses with
  | nil => simp [runSteps]
  | cons step rest ih =>
    rw [runSteps]
    dsimp only
    cases statuses with
    | nil => simp [ih]
    | cons status statuses =>
      by_cases succeeds : status = 0
      · simp [succeeds, ih]
      · simp [succeeds]

/-! ## The line of the converter -/

/-- A value that is given unless it is empty. -/
def given (key text : String) : List Setting :=
  if text = "" then [] else [.value key text]

/-- The options that the converter is started with. -/
def handedSettings (options : Options) : List Setting :=
  given "--config" options.config ++ given "--report" options.report ++
    if options.isStrict then [.switch "--strict"] else []

theorem optionWords_eq (key text : String) :
    optionWords key text = (given key text).flatMap Setting.words := by
  unfold optionWords given
  split <;> rfl

/-- The converter is started with a plain line. -/
theorem converterArguments_eq (site : Site) (options : Options) :
    converterArguments site options =
      [site.docs ++ "/data.json", options.output] ++
        (handedSettings options).flatMap Setting.words := by
  have strict : (if options.isStrict then [Setting.switch "--strict"] else []).flatMap
      Setting.words = if options.isStrict then ["--strict"] else [] := by
    split <;> rfl
  rw [converterArguments, handedSettings, List.flatMap_append, List.flatMap_append, strict,
    optionWords_eq, optionWords_eq]
  simp only [List.append_assoc]

theorem takes_given {g : Grammar} {key text : String} {spec : OptionSpec} (isKey : g.IsKey key spec)
    (isValue : spec.kind = .value) (plain : isDashed text = false) :
    ∀ setting ∈ given key text, g.Takes setting := by
  intro setting mem
  unfold given at mem
  split at mem
  · cases mem
  · obtain rfl := List.mem_singleton.1 mem
    exact ⟨spec, isKey, isValue, plain⟩

/-- The converter takes all that it is started with. -/
theorem takes_handedSettings (config : isDashed options.config = false)
    (report : isDashed options.report = false) :
    ∀ setting ∈ handedSettings options, Converter.grammar.Takes setting := by
  have configKey : Converter.grammar.IsKey "--config" ⟨["--config"], .value, false⟩ :=
    ⟨rfl, rfl, by decide, by decide⟩
  have reportKey : Converter.grammar.IsKey "--report" ⟨["--report"], .value, false⟩ :=
    ⟨rfl, rfl, by decide, by decide⟩
  intro setting mem
  rcases List.mem_append.1 mem with mem | mem
  · rcases List.mem_append.1 mem with mem | mem
    · exact takes_given configKey rfl config setting mem
    · exact takes_given reportKey rfl report setting mem
  · split at mem
    · obtain rfl := List.mem_singleton.1 mem
      exact ⟨_, ⟨rfl, rfl, by decide, by decide⟩, rfl, rfl⟩
    · cases mem

theorem nonempty?_bind (text : String) :
    (Converter.nonempty? text).bind Converter.nonempty? = Converter.nonempty? text := by
  unfold Converter.nonempty?
  split
  · rfl
  · rename_i given
    exact if_neg given

@[simp] theorem has_nothing (key : String) : (⟨[], []⟩ : Arguments).has key = false := rfl

@[simp] theorem text?_nothing (key : String) : (⟨[], []⟩ : Arguments).text? key = none := rfl

@[simp] theorem has_given (arguments : Arguments) (key text other : String) :
    ((given key text).foldl Setting.apply arguments).has other = arguments.has other := by
  unfold given
  split <;> simp

@[simp] theorem text?_given (arguments : Arguments) (key text other : String) :
    ((given key text).foldl Setting.apply arguments).text? other =
      ((if key = other then Converter.nonempty? text else none).or (arguments.text? other)) := by
  unfold given Converter.nonempty?
  split <;> split <;> simp_all

/-- What the converter is asked to do. -/
def asked (input : String) (options : Options) : Converter.Options where
  input := Path.normalise input
  output := Path.normalise options.output
  config? := Converter.nonempty? options.config
  exportName? := none
  report? := (Converter.nonempty? options.report).map Path.normalise
  isDryRun := false
  isStrict := options.isStrict
  verbosity := .normal

/-- What the converter makes of what it is started with. -/
theorem ofArguments_handed (input : String) (options : Options) :
    Converter.Options.ofArguments
        ((Grammar.served Converter.grammar.positionals [input, options.output] ++
          handedSettings options).foldl Setting.apply ⟨[], []⟩) =
      asked input options := by
  have start : Grammar.served Converter.grammar.positionals [input, options.output] =
      [.value "input" input, .value "output" options.output] := rfl
  rw [start, handedSettings, List.foldl_append, List.foldl_append, List.foldl_append]
  cases strict : options.isStrict <;>
    simp [Converter.Options.ofArguments, asked, nonempty?_bind, strict]

/-- **The grammar of the converter reads what it is started with as it is meant.** -/
theorem exists_read_converterArguments (options : Options) (rooted : isDashed site.root = false)
    (output : isDashed options.output = false) (config : isDashed options.config = false)
    (report : isDashed options.report = false) :
    ∃ arguments, Converter.grammar.read (converterArguments site options) = .accepted arguments ∧
      Converter.Options.ofArguments arguments = asked (site.docs ++ "/data.json") options := by
  have input : isDashed (site.docs ++ "/data.json") = false :=
    isDashed_append (isDashed_append rooted rfl) rfl
  refine ⟨_, ?_, ofArguments_handed _ options⟩
  rw [converterArguments_eq]
  exact Grammar.read_plain rfl (by simp [input, output]) (takes_handedSettings config report)

/-! ## A line and its run -/

variable {line : List String} {arguments : Arguments}

/-- The commands that a line asks for. -/
def planned (site : Site) (arguments : Arguments) : List (List String) :=
  (if arguments.has "--skip-yuidoc" then []
    else [["npx", "yuidoc", "--parse-only", "--outdir", site.docs,
      (arguments.text? "source").getD "packages"]]) ++
    [site.converter ++ converterArguments site (.ofArguments arguments)]

/-- What a line asks of the converter. -/
def handedOver (site : Site) (arguments : Arguments) : Converter.Options where
  input := Path.normalise (site.docs ++ "/data.json")
  output := Path.normalise ((arguments.value? "--out").getD (.word "index.d.ts")).display
  config? := (arguments.text? "--config").bind Converter.nonempty?
  exportName? := none
  report? := ((arguments.text? "--report").bind Converter.nonempty?).map Path.normalise
  isDryRun := false
  isStrict := arguments.has "--strict"
  verbosity := .normal

theorem map_words_steps (site : Site) (arguments : Arguments) :
    (steps site (.ofArguments arguments)).map Step.words = planned site arguments := by
  rw [steps, planned, List.map_append, apply_ite (List.map Step.words)]
  rfl

theorem nonempty?_getD (text? : Option String) :
    Converter.nonempty? (text?.getD "") = text?.bind Converter.nonempty? := by
  cases text? <;> rfl

theorem isDashed_display {value? : Option Value}
    (plain : ∀ text ∈ value?.bind Value.text?, isDashed text = false) :
    isDashed (value?.getD (.word "index.d.ts")).display = false := by
  cases value? with
  | none => decide
  | some value =>
    cases value with
    | word text => exact plain text rfl
    | wordless => decide

theorem isDashed_getD {text? : Option String} (plain : ∀ text ∈ text?, isDashed text = false) :
    isDashed (text?.getD "") = false := by
  cases text? with
  | none => decide
  | some text => exact plain text rfl

/-- The grammar knows two switches and four values. -/
theorem keys_of_knows (h : grammar.Knows arguments) :
    arguments.switches ⊆ ["--skip-yuidoc", "--strict"] ∧
      Entries.keys arguments.values ⊆ ["source", "--out", "--config", "--report"] := by
  have switches : ∀ spec ∈ grammar.options, spec.kind = .switch →
      spec.key ∈ ["--skip-yuidoc", "--strict"] := by decide
  have values : ∀ spec ∈ grammar.options, spec.kind = .value →
      spec.key ∈ ["source", "--out", "--config", "--report"] := by decide
  have positionals : ∀ positional ∈ grammar.positionals,
      positional.key ∈ ["source", "--out", "--config", "--report"] := by decide
  constructor
  · intro key mem
    obtain ⟨spec, known, kind, rfl⟩ := h.switches key mem
    exact switches spec known kind
  · intro key mem
    obtain ⟨spec, known, kind, rfl⟩ | ⟨positional, known, rfl⟩ := h.values key mem
    · exact values spec known kind
    · exact positionals positional known

/-- **A line is handed over faithfully.**  The sources are parsed first, unless that is skipped, and
the converter is run when nothing has failed before.  Nothing is run after a failure, and the status
is that of the command that failed.  The grammar of the converter reads what it is started with as
the document, and the output, the configuration, the report and the strictness that the line gives,
and nothing else is set; and these, the sources and what is skipped are all that a line can give.

No absolute path of a directory starts with a dash.  A value that starts with one would be taken for
an option. -/
theorem run_handsOver (site : Site) (statuses : List Int) (rooted : isDashed site.root = false)
    (accepted : grammar.read line = .accepted arguments)
    (plain : ∀ key ∈ ["--out", "--config", "--report"], ∀ text ∈ arguments.text? key,
      isDashed text = false) :
    (∀ i, (run site (.ofArguments arguments) statuses).commands[i]? =
      if ∀ j < i, statusAt statuses j = 0 then (planned site arguments)[i]? else none) ∧
    (run site (.ofArguments arguments) statuses).status =
      ((statuses.take (planned site arguments).length).find? (· ≠ 0)).getD 0 ∧
    (∃ parsed, Converter.grammar.read (converterArguments site (.ofArguments arguments)) =
        .accepted parsed ∧
      Converter.Options.ofArguments parsed = handedOver site arguments) ∧
    arguments.switches ⊆ ["--skip-yuidoc", "--strict"] ∧
    Entries.keys arguments.values ⊆ ["source", "--out", "--config", "--report"] := by
  refine ⟨fun i => ?_, ?_, ?_, keys_of_knows (Grammar.knows_read accepted)⟩
  · rw [run, getElem?_commands_runSteps, map_words_steps]
  · rw [run, status_runSteps, ← map_words_steps, List.length_map]
  · have output := isDashed_display (plain "--out" (by decide))
    have config := isDashed_getD (plain "--config" (by decide))
    have report := isDashed_getD (plain "--report" (by decide))
    obtain ⟨parsed, reads, meant⟩ :=
      exists_read_converterArguments (.ofArguments arguments) rooted output config report
    refine ⟨parsed, reads, meant.trans ?_⟩
    simp only [asked, handedOver, Options.ofArguments, nonempty?_getD]

/-- A line with abbreviated names, an attached value and an empty report. -/
def abbreviatedLine : List String :=
  ["--conf", "settings.yml", "src", "--out=types/index.d.ts", "--stri", "--report", ""]

/-- What the line gives. -/
def abbreviatedArguments : Arguments :=
  ⟨["--strict"], [("--config", .word "settings.yml"), ("source", .word "src"),
    ("--out", .word "types/index.d.ts"), ("--report", .word "")]⟩

/-- Of a line whose conversion fails, both commands are run and all values are handed over. -/
theorem run_handsOver_abbreviated :
    grammar.read abbreviatedLine = .accepted abbreviatedArguments ∧
    (run ⟨"/srv", ["convert"]⟩ (.ofArguments abbreviatedArguments) [0, 3]).status = 3 ∧
    (run ⟨"/srv", ["convert"]⟩ (.ofArguments abbreviatedArguments) [0, 3]).commands[1]? =
      some ["convert", "/srv/docs/data.json", "types/index.d.ts", "--config", "settings.yml",
        "--strict"] ∧
    ∃ parsed, Converter.grammar.read ["/srv/docs/data.json", "types/index.d.ts", "--config",
        "settings.yml", "--strict"] = .accepted parsed ∧
      Converter.Options.ofArguments parsed = ⟨"/srv/docs/data.json", "types/index.d.ts",
        some "settings.yml", none, none, false, true, .normal⟩ := by
  have accepted : grammar.read abbreviatedLine = .accepted abbreviatedArguments := by
    decide +kernel
  obtain ⟨commands, status, ⟨parsed, reads, meant⟩, -⟩ :=
    run_handsOver ⟨"/srv", ["convert"]⟩ [0, 3] (by decide) accepted (by decide +kernel)
  refine ⟨accepted, status.trans (by decide +kernel), (commands 1).trans (by decide +kernel),
    parsed, ?_, meant.trans (by decide +kernel)⟩
  exact Eq.trans (by decide +kernel) reads

end Pipeline
end Command
end AmbientDecl
