/- # What a run writes

A run of the converter writes all of its files or none.  What stops it while it reads or generates
stops it before the first file.  From then on nothing is in its way: the report of a document that
was generated is made in silence (`Model.Told.run_report`), and files can be written at free paths
(`Converter.deliver_of_free`).  So it is known what stands at every place of the disk after the run
(`Converter.leaves_afterAll`).

How a strict or a quiet run differs from others is seen in its ending and in its lines only, so the
files do not depend on it (`Converter.sameFiles_run`).

The statements hold for every reader of YAML and whatever the clock says.  They leave runs out that
read a value which is none of `Json`, as numbers with fractions are.
-/

import AmbientDecl.Config.Flow
import AmbientDecl.Proofs.Command.Disk
import AmbientDecl.Proofs.Command.Switches
import AmbientDecl.Proofs.Config.Tables
import AmbientDecl.Proofs.Model.Counted

namespace AmbientDecl
namespace Command
namespace Converter

variable {readers : Readers} {times : Times} {options : Options} {disk : Disk} {job : Job}
  {m : Model}

/-! Reading -/

/-- A configuration that is given and is an object has text tables. -/
def ConfigFits (readers : Readers) (options : Options) (disk : Disk) : Prop :=
  ∀ path text members, options.config? = some path →
    disk.read (Path.normalise path) = .ok text → readers.yaml text = .ok (.obj members) →
    Config.hasTextTables members = true

theorem hasTextTables_of_load {text : String} {config : List (String × Json)}
    (fits : ∀ members, readers.yaml text = .ok (.obj members) →
      Config.hasTextTables members = true)
    (loaded : Config.load readers text = .ok config) : Config.hasTextTables config = true := by
  obtain ⟨value, read, loaded⟩ := bind_eq_ok.1 loaded
  split at loaded
  · split at loaded
    · obtain rfl := Except.ok.inj loaded
      exact Config.hasTextTables_merge Config.hasTextTables_default (fits _ (mapError_eq_ok.1 read))
    · cases loaded
  · obtain rfl := Except.ok.inj loaded
    exact Config.hasTextTables_default

theorem hasTextTables_of_loadConfig {config : List (String × Json)}
    (fits : ConfigFits readers options disk)
    (loaded : loadConfig readers options.config? disk = .ok config) :
    Config.hasTextTables config = true := by
  rw [loadConfig] at loaded
  cases given : options.config? with
  | none =>
    rw [given] at loaded
    obtain rfl := Except.ok.inj loaded
    exact Config.hasTextTables_default
  | some path =>
    rw [given] at loaded
    obtain ⟨isPresent, -, loaded⟩ := bind_eq_ok.1 loaded
    split at loaded
    · obtain ⟨text, read, loaded⟩ := bind_eq_ok.1 loaded
      rw [mapError_eq_ok] at read loaded
      exact hasTextTables_of_load (fun members value => fits path text members given read value)
        loaded
    · obtain rfl := Except.ok.inj loaded
      exact Config.hasTextTables_default

/-- The settings of a run are well typed. -/
theorem wellTyped_of_prepare (fits : ConfigFits readers options disk)
    (prepared : prepare readers options disk = .ok job) : job.settings.WellTyped := by
  obtain ⟨isPresent, -, prepared⟩ := bind_eq_ok.1 prepared
  split at prepared
  · cases prepared
  · obtain ⟨config, loaded, prepared⟩ := bind_eq_ok.1 prepared
    obtain ⟨settings, read, prepared⟩ := bind_eq_ok.1 prepared
    obtain ⟨fields, -, prepared⟩ := bind_eq_ok.1 prepared
    obtain rfl := Except.ok.inj prepared
    have tables := hasTextTables_of_loadConfig fits loaded
    refine Config.wellTyped_of_ofConfig ?_ (mapError_eq_ok.1 read)
    unfold withExportName
    split
    · exact Config.hasTextTables_put tables (by decide) _
    · exact tables

/-! Generating -/

/-- What stops the generation stops the run. -/
theorem run_produce_of_error {error : BuildError} {m₀ : Model}
    (failed : (Build.generate job.document).run m₀ = .error error m) (report? : Option String) :
    (produce job report?).run m₀ = .error error m := by
  rw [produce, EStateM.run_bind, failed]

/-- The report does not stop a run whose document was generated, and it leaves the model as it
is. -/
theorem run_produce {text : String} (typed : job.settings.WellTyped)
    (generated : (Build.generate job.document).run (Model.empty job.settings) = .ok text m) :
    ∃ report, (Report.build job.fingerprint).run m = .ok report m ∧
      ∀ report?, (produce job report?).run (Model.empty job.settings) =
        .ok ⟨text, report?.map fun path => (path, .ok report)⟩ m := by
  obtain ⟨told, -⟩ := (Build.keepsTold_generate job.document (Model.empty job.settings)).of_ok
    generated (Model.told_empty typed)
  obtain ⟨report, run, -⟩ := told.run_report job.fingerprint
  refine ⟨report, run, fun report? => ?_⟩
  rw [produce, EStateM.run_bind, generated]
  cases report? with
  | none => rfl
  | some path =>
    dsimp only
    rw [EStateM.run_bind, Build.run_attempt, run]
    rfl

/-! Writing -/

/-- The file that a delivery writes, if its content was made. -/
def Delivery.file? (delivery : Delivery) : Option WrittenFile :=
  delivery.content.toOption.map fun content =>
    ⟨delivery.path, Place.ofPath delivery.path, content⟩

/-- The path of a file with the text that is written there. -/
def WrittenFile.entry (file : WrittenFile) : String × String :=
  (file.path, file.content.text)

/-- A file is delivered at a path that is free. -/
theorem Delivery.write_of_free {delivery : Delivery} {content : Content}
    (made : delivery.content = .ok content) (free : disk.Free delivery.path) :
    delivery.write disk = (disk.after delivery.path content.text,
      .ok ⟨delivery.path, Place.ofPath delivery.path, content⟩) := by
  obtain ⟨directory, written⟩ := free.writes content.text
  rw [Delivery.write, directory]
  dsimp only
  rw [made]
  dsimp only
  rw [written]

/-- **Everything is delivered** at free paths that are apart. -/
theorem deliver_of_free {deliveries : List Delivery}
    (made : ∀ delivery ∈ deliveries, ∃ content, delivery.content = .ok content)
    (free : ∀ delivery ∈ deliveries, disk.Free delivery.path)
    (apart : deliveries.Pairwise fun delivery other => Disk.Apart delivery.path other.path) :
    (deliver disk deliveries).failure? = none ∧
      (deliver disk deliveries).files.map Prod.fst = deliveries.filterMap Delivery.file? ∧
      (deliver disk deliveries).disk =
        disk.afterAll ((deliveries.filterMap Delivery.file?).map WrittenFile.entry) := by
  induction deliveries generalizing disk with
  | nil => exact ⟨rfl, rfl, rfl⟩
  | cons delivery rest ih =>
    obtain ⟨⟨content, there⟩, made⟩ := List.forall_mem_cons.1 made
    obtain ⟨here, free⟩ := List.forall_mem_cons.1 free
    obtain ⟨others, apart⟩ := List.pairwise_cons.1 apart
    have file : delivery.file? = some ⟨delivery.path, Place.ofPath delivery.path, content⟩ := by
      rw [Delivery.file?, there]
      rfl
    obtain ⟨none, files, left⟩ := ih made
      (fun other mem => (free other mem).after (others other mem) content.text) apart
    rw [deliver, Delivery.write_of_free there here, List.filterMap_cons, file]
    exact ⟨none, congrArg (List.cons _) files, left⟩

/-- The paths that a run writes to. -/
def Options.targets (options : Options) : List String :=
  options.report?.toList ++ if options.isDryRun then [] else [options.output]

/-- The files of a run: the report if it has a path, and the declarations unless the run is dry. -/
def filesOf (times : Times) (options : Options) (text : String) (report : Json) :
    List WrittenFile :=
  (options.report?.map fun path => ⟨path, Place.ofPath path, .report times report⟩).toList ++
    if options.isDryRun then []
    else [⟨options.output, Place.ofPath options.output, .declarations text⟩]

/-- Files can be written at the paths of a run, which are apart. -/
structure Writable (options : Options) (disk : Disk) : Prop where
  free : ∀ path ∈ options.targets, disk.Free path
  apart : options.targets.Pairwise Disk.Apart

/-- What stands on the disk `left` by a run that has written all of its files to another one. -/
structure Leaves (times : Times) (options : Options) (disk : Disk) (text : String) (report : Json)
    (left : Disk) : Prop where
  declarations : options.isDryRun = false → left (Place.ofPath options.output) = .text text
  report : ∀ path, options.report? = some path →
    left (Place.ofPath path) = .text (reportText times report)
  directories : ∀ path ∈ options.targets, ∀ place ∈ Disk.way path, left place = .directory
  elsewhere : ∀ place,
    (∀ path ∈ options.targets, place ≠ Place.ofPath path ∧ place ∉ Disk.way path) →
    left place = disk place

theorem paths_filesOf (times : Times) (options : Options) (text : String) (report : Json) :
    ((filesOf times options text report).map WrittenFile.entry).map Prod.fst = options.targets := by
  rw [filesOf, Options.targets]
  cases options.report? <;> cases options.isDryRun <;> rfl

/-- **The disk after all files were written.** -/
theorem leaves_afterAll (times : Times) (writable : Writable options disk) (text : String)
    (report : Json) :
    Leaves times options disk text report
      (disk.afterAll ((filesOf times options text report).map WrittenFile.entry)) := by
  have paths := paths_filesOf times options text report
  have target : ∀ file ∈ (filesOf times options text report).map WrittenFile.entry,
      file.1 ∈ options.targets := fun file mem => paths ▸ List.mem_map_of_mem mem
  have apart : ((filesOf times options text report).map WrittenFile.entry).Pairwise
      fun file other => Disk.Apart file.1 other.1 := by
    have apart := writable.apart
    rwa [← paths, List.pairwise_map] at apart
  refine ⟨fun written => ?_, fun path given => ?_, fun path mem place on => ?_,
    fun place off => Disk.afterAll_elsewhere fun file mem => off file.1 (target file mem)⟩
  · have mem : (options.output, text) ∈
        (filesOf times options text report).map WrittenFile.entry := by
      simp [filesOf, written, WrittenFile.entry, Content.text]
    exact Disk.afterAll_text apart mem
  · have mem : (path, reportText times report) ∈
        (filesOf times options text report).map WrittenFile.entry := by
      simp [filesOf, given, WrittenFile.entry, Content.text]
    exact Disk.afterAll_text apart mem
  · obtain ⟨file, inFiles, rfl⟩ := List.mem_map.1 (paths ▸ mem)
    refine Disk.afterAll_directory inFiles on fun other mem' same => ?_
    exact Disk.notMem_way writable.free writable.apart mem (target other mem') (same ▸ on)

/-- A run delivers its files, and its ending tells of what stopped it. -/
theorem conclude_eq (times : Times) (options : Options) (disk : Disk) (m : Model)
    (product : Product) :
    (conclude times options disk m product).written =
        (deliver disk (deliveries times options m product)).files.map Prod.fst ∧
      (conclude times options disk m product).disk =
        (deliver disk (deliveries times options m product)).disk ∧
      (conclude times options disk m product).ending =
        match (deliver disk (deliveries times options m product)).failure? with
        | some failure => .failed failure
        | none => .finished (if isRejected options m then 1 else 0) := by
  unfold conclude
  dsimp only
  cases (deliver disk (deliveries times options m product)).failure? <;> exact ⟨rfl, rfl, rfl⟩

/-- A run that has generated everything writes all of its files. -/
theorem conclude_of_writable (times : Times) (writable : Writable options disk) (text : String)
    (report : Json) {product : Product}
    (generated : product = ⟨text, options.report?.map fun path => (path, .ok report)⟩) :
    (conclude times options disk m product).written = filesOf times options text report ∧
      (conclude times options disk m product).disk =
        disk.afterAll ((filesOf times options text report).map WrittenFile.entry) ∧
      (conclude times options disk m product).ending =
        .finished (if isRejected options m then 1 else 0) := by
  have planned : deliveries times options m product =
      (options.report?.map fun path => reportDelivery times path (.ok report)).toList ++
        if options.isDryRun then [] else [outputDelivery options m text] := by
    rw [deliveries, generated, Option.map_map]
    rfl
  have made : ∀ delivery ∈ deliveries times options m product,
      ∃ content, delivery.content = .ok content := by
    rw [planned]
    cases options.report? <;> cases options.isDryRun <;>
      simp [reportDelivery, outputDelivery, Except.map]
  have paths : (deliveries times options m product).map Delivery.path = options.targets := by
    rw [planned, Options.targets]
    cases options.report? <;> cases options.isDryRun <;> rfl
  have files : (deliveries times options m product).filterMap Delivery.file? =
      filesOf times options text report := by
    rw [planned, filesOf]
    cases options.report? <;> cases options.isDryRun <;> rfl
  obtain ⟨free, apart⟩ := writable
  rw [← paths] at free apart
  obtain ⟨all, written, left⟩ := deliver_of_free made
    (fun delivery mem => free _ (List.mem_map_of_mem mem)) (List.pairwise_map.1 apart)
  obtain ⟨written', left', ending⟩ := conclude_eq times options disk m product
  rw [written', left', ending, written, left, files, all]
  exact ⟨rfl, rfl, rfl⟩

/-! Runs -/

/-- Two runs write the same files, and leave the same on the disk. -/
def SameFiles (outcome other : Outcome) : Prop :=
  outcome.written = other.written ∧ outcome.disk = other.disk

/-- How strict a run is and how much of its log is shown does not change its files. -/
theorem sameFiles_run (readers : Readers) (times : Times) (options : Options) (disk : Disk)
    (isStrict : Bool) (verbosity : Verbosity) :
    SameFiles (run readers times { options with isStrict, verbosity } disk)
      (run readers times options disk) := by
  have prepared : prepare readers { options with isStrict, verbosity } disk =
      prepare readers options disk := rfl
  unfold run
  rw [prepared]
  cases prepare readers options disk with
  | error failure => exact ⟨rfl, rfl⟩
  | ok job =>
    dsimp only
    cases (produce job options.report?).run (Model.empty job.settings) with
    | error error m => exact ⟨rfl, rfl⟩
    | ok product m =>
      obtain ⟨written, left, -⟩ := conclude_eq times options disk m product
      obtain ⟨written', left', -⟩ :=
        conclude_eq times { options with isStrict, verbosity } disk m product
      exact ⟨written'.trans written.symm, left'.trans left.symm⟩

/-- Whether a word of a line is a switch that makes a run strict, verbose or quiet. -/
def isTuning (word : String) : Bool :=
  match grammar.classify? word with
  | some (.option ⟨some spec, _, none⟩) =>
    spec.kind == .switch && ["--strict", "--verbose", "--quiet"].contains spec.key
  | _ => false

example : ["--strict", "--verbose", "-v", "--quiet", "-q", "--str"].all isTuning = true := by
  decide +kernel

/-- Lines with and without such a switch ask for the same otherwise. -/
theorem exists_ofArguments_insert {word : String} {before after : List String}
    {arguments arguments' : Arguments} (tuning : isTuning word = true) (noDashes : "--" ∉ before)
    (line : grammar.read (before ++ after) = .accepted arguments)
    (line' : grammar.read (before ++ word :: after) = .accepted arguments') :
    ∃ isStrict verbosity, Options.ofArguments arguments' =
      { Options.ofArguments arguments with isStrict, verbosity } := by
  have tail : Grammar.OptionalTail grammar.positionals := by
    intro positional mem
    obtain rfl := List.mem_singleton.1 mem
    rfl
  have other : word ≠ "--" := by
    rintro rfl
    exact absurd tuning (by decide +kernel)
  unfold isTuning at tuning
  split at tuning
  · rename_i spec name classed
    obtain ⟨switch, key⟩ := Bool.and_eq_true_iff.1 tuning
    have beside := Grammar.read_insert tail (beq_iff_eq.1 switch) classed other noDashes line line'
    have value : ∀ key, arguments'.text? key = arguments.text? key := fun key => by
      rw [Arguments.text?, Arguments.value?, beside.values]
      rfl
    have dry : arguments'.has "--dry-run" = arguments.has "--dry-run" := by
      refine beside.switches _ fun same => ?_
      rw [← same] at key
      exact absurd key (by decide)
    refine ⟨(Options.ofArguments arguments').isStrict, (Options.ofArguments arguments').verbosity,
      ?_⟩
    simp only [Options.ofArguments, value, dry]
  · cases tuning

/-- A failure ends a run before the first file. -/
structure Halts (readers : Readers) (times : Times) (options : Options) (disk : Disk)
    (failure : Failure) : Prop where
  ending : (run readers times options disk).ending = .failed failure
  written : (run readers times options disk).written = []
  disk : (run readers times options disk).disk = disk

/-- What stops a run while it reads. -/
theorem halts_of_prepare {failure : Failure}
    (stops : prepare readers options disk = .error failure) :
    Halts readers times options disk failure := by
  constructor <;> rw [run, stops] <;> rfl

/-- What stops a run while it generates. -/
theorem halts_of_generate {error : BuildError}
    (prepared : prepare readers options disk = .ok job)
    (failed : (Build.generate job.document).run (Model.empty job.settings) = .error error m) :
    Halts readers times options disk (.build error) := by
  have produced := run_produce_of_error failed options.report?
  constructor <;> rw [run, prepared] <;> dsimp only <;> rw [produced] <;> rfl

/-- A run that generates its declarations writes its files and finishes. -/
theorem run_of_generate {text : String} (fits : ConfigFits readers options disk)
    (writable : Writable options disk) (prepared : prepare readers options disk = .ok job)
    (generated : (Build.generate job.document).run (Model.empty job.settings) = .ok text m) :
    ∃ report, (Report.build job.fingerprint).run m = .ok report m ∧
      (run readers times options disk).written = filesOf times options text report ∧
      Leaves times options disk text report (run readers times options disk).disk ∧
      (run readers times options disk).ending =
        .finished (if options.isStrict = true ∧ m.diagnostics ≠ [] then 1 else 0) := by
  obtain ⟨report, made, produced⟩ := run_produce (wellTyped_of_prepare fits prepared) generated
  obtain ⟨written, left, ending⟩ := conclude_of_writable (m := m) times writable text report rfl
  refine ⟨report, made, ?_⟩
  rw [run, prepared]
  dsimp only
  rw [produced]
  dsimp only
  refine ⟨written, left ▸ leaves_afterAll times writable text report, ending.trans ?_⟩
  simp only [isRejected, Bool.and_eq_true, Bool.not_eq_true', List.isEmpty_eq_false_iff]

/-! Errors -/

/-- The failures whose errors are handled, each with the message of its error: findings in the
documentation, values that cannot be used and texts that are not YAML. -/
inductive Handled : Failure → String → Prop
  | finding {error : BuildError} (h : error.isFinding = true) :
    Handled (.build error) error.message
  | notJson (path reason : String) : Handled (.load path (.malformed reason)) reason
  | longInteger (path : String) (digits : Nat) :
    Handled (.load path (.longInteger digits)) (longIntegerReason digits)
  | notYaml (path reason : String) : Handled (.load path (.yaml (.malformed reason))) reason
  | yamlValue (path reason : String) : Handled (.load path (.yaml (.value reason))) reason
  | noMapping (path found : String) : Handled (.load path (.noMapping found))
      ("Expected a mapping at the top of " ++ path ++ ", got " ++ found)
  | hasNul : Handled (.file .hasNul) "embedded null byte"
  | noText (reason : String) : Handled (.file (.noText reason)) reason

/-- The failures whose errors are not handled: values of the wrong type, files that cannot be used,
and faults of the readers. -/
inductive Unhandled : Failure → Prop
  | build {error : BuildError} (h : error.isFinding = false) : Unhandled (.build error)
  | broken (path : String) : Unhandled (.load path (.yaml .broken))
  | noMembers (path : String) : Unhandled (.load path .noMembers)
  | shape (fault : ShapeFault) : Unhandled (.shape fault)
  | file {fault : FileFault} (path : fault ≠ .hasNul) (text : ∀ reason, fault ≠ .noText reason) :
    Unhandled (.file fault)

/-- How the program ends for a failure. -/
inductive ExitsWith : Failure → Exit → Prop
  | message {failure : Failure} {reason : String} (h : Handled failure reason) :
    ExitsWith failure (.message ("error: " ++ reason))
  | missing (path : String) :
    ExitsWith (.missingInput path) (.message ("Input document not found: " ++ path))
  | crash {failure : Failure} (h : Unhandled failure) : ExitsWith failure (.crash failure)

/-- Whether a failure comes from a text with a value that is none of `Json`. -/
def IsForeign : Failure → Prop
  | .load _ error => error.isForeign = true
  | _ => False

/-- **Every failure ends the program as its error does**, if nothing foreign was read. -/
theorem exitsWith_exit {failure : Failure} (native : ¬ IsForeign failure) :
    ExitsWith failure (Ending.failed failure).exit := by
  cases failure with
  | missingInput path => exact .missing path
  | load path error =>
    cases error with
    | malformed reason => exact .message (.notJson path reason)
    | longInteger digits => exact .message (.longInteger path digits)
    | foreign => exact absurd rfl native
    | yaml fault =>
      cases fault with
      | malformed reason => exact .message (.notYaml path reason)
      | value reason => exact .message (.yamlValue path reason)
      | broken => exact .crash (.broken path)
      | foreign => exact absurd rfl native
    | noMapping found => exact .message (.noMapping path found)
    | noMembers => exact .crash (.noMembers path)
  | shape fault => exact .crash (.shape fault)
  | file fault =>
    cases fault with
    | hasNul => exact .message .hasNul
    | noText reason => exact .message (.noText reason)
    | _ => exact .crash (.file nofun nofun)
  | build error =>
    cases finding : error.isFinding with
    | true =>
      have raised : (Failure.build error).raised = .finding error.message := if_pos finding
      rw [Ending.exit, raised]
      exact .message (.finding finding)
    | false =>
      have raised : (Failure.build error).raised = .other := if_neg (by simp [finding])
      rw [Ending.exit, raised]
      exact .crash (.build finding)

/-- A disk with a document that has an unknown parent and a configuration with two tables. -/
def strictDisk : Disk := fun place =>
  if place = ⟨false, []⟩ then .directory
  else if place = ⟨false, ["data.json"]⟩ then
    .text "\x7b\"classes\": \x7b\"A\": \x7b\"extends\": \"B\"\x7d\x7d\x7d"
  else if place = ⟨false, ["config.yml"]⟩ then
    .text "\x7b\"additional_classes\": [\"C\"], \"type_aliases\": \x7b\"Id\": \"number\"\x7d\x7d"
  else .missing

/-- A strict run with a report. -/
def strictRun : Options :=
  ⟨"data.json", "out/index.d.ts", some "config.yml", none, some "report.json", false, true, .normal⟩

/-- What the clock says of the strict run. -/
def strictTimes : Times := ⟨"1700000000.5", "0.25"⟩

/-- The declarations that are generated by the strict run. -/
def strictText : String :=
  "declare namespace Handlebars \x7b\n  class SafeString \x7b\n  \x7d\n\x7d\n" ++
    "declare class A \x7b\n\x7d\ndeclare class DOMElement \x7b\n\x7d\n" ++
    "declare class Registry \x7b\n\x7d\ndeclare class Transition \x7b\n\x7d\n" ++
    "declare class C \x7b\n\x7d\nexport default Ember;\n"

theorem writable_strictRun : Writable strictRun strictDisk := by
  have paths : strictRun.targets = ["report.json", "out/index.d.ts"] := rfl
  constructor
  · rw [paths, List.forall_mem_cons, List.forall_mem_singleton]
    constructor <;>
    · refine ⟨rfl, rfl, ?_, rfl, by decide +kernel, by decide +kernel, by decide +kernel⟩
      unfold Disk.AreShort
      decide +kernel
  · rw [paths]
    refine .cons (List.forall_mem_singleton.2 ?_) (List.pairwise_singleton _ _)
    exact ⟨by decide +kernel, by decide +kernel, by decide +kernel⟩

theorem configFits_strictRun : ConfigFits Flow.readers strictRun strictDisk := by
  have tables : ((strictDisk.read (Path.normalise "config.yml")).toOption.all fun text =>
      ((Flow.readers.yaml text).toOption.bind Json.table?).all Config.hasTextTables) = true := by
    decide +kernel
  intro path text members given read value
  obtain rfl := Option.some.inj given
  rw [read] at tables
  simpa only [Except.toOption, value, Option.all_some, Option.bind_some, Json.table?_obj]
    using tables

end Converter
end Command
end AmbientDecl
