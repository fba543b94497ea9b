/- # The converter

Reads a document and a configuration, generates the declaration file and writes it, and a report
where one is asked for.  Nothing is written before the declaration file has been generated.  A
strict run fails when it recorded a diagnostic, and is otherwise the same.

A file is written in three steps: its directory is made, its content is made, and then the file is
written.  What fails first stops the run, and what was made until then stays on the disk.

The program exits with the status of its run.  It handles three classes of errors, findings in the
documentation, values that cannot be used and texts that are not YAML: it exits with the message of
such an error after the word `error`.  A run without an input exits with a message of its own, and
any other error is not handled.
-/

import AmbientDecl.Command.Arguments
import AmbientDecl.Command.Disk
import AmbientDecl.Config.Fingerprint
import AmbientDecl.Config.Load
import AmbientDecl.Generation
import AmbientDecl.Report

namespace AmbientDecl
namespace Command
namespace Converter

/-- How much of the log is shown. -/
inductive Verbosity where
  | verbose
  | normal
  | quiet
  deriving DecidableEq

/-- What a run is asked to do. -/
structure Options where
  input : String
  output : String
  config? : Option String
  exportName? : Option String
  report? : Option String
  isDryRun : Bool
  isStrict : Bool
  verbosity : Verbosity
  deriving DecidableEq

/-- The grammar of the command line. -/
def grammar : Grammar where
  options := [
    ⟨["--help", "-h"], .help, false⟩,
    ⟨["--config"], .value, false⟩,
    ⟨["--export-name"], .value, false⟩,
    ⟨["--report"], .value, false⟩,
    ⟨["--dry-run"], .switch, false⟩,
    ⟨["--strict"], .switch, false⟩,
    ⟨["--verbose", "-v"], .switch, true⟩,
    ⟨["--quiet", "-q"], .switch, true⟩]
  positionals := [⟨"input", true⟩, ⟨"output", false⟩]

/-- How the command is used. -/
def usage : String :=
  "usage: [-h] [--config CONFIG] [--export-name NAME] [--report REPORT] [--dry-run] [--strict]" ++
    " [--verbose | --quiet] input [output]"

/-- A text that is not empty. -/
def nonempty? (text : String) : Option String :=
  if text = "" then none else some text

/-- The options that a command line gives; a value without words is as good as none. -/
def Options.ofArguments (arguments : Arguments) : Options where
  input := Path.normalise ((arguments.text? "input").getD "")
  output := Path.normalise ((arguments.text? "output").getD "index.d.ts")
  config? := (arguments.text? "--config").bind nonempty?
  exportName? := (arguments.text? "--export-name").bind nonempty?
  report? := (arguments.text? "--report").map Path.normalise
  isDryRun := arguments.has "--dry-run"
  isStrict := arguments.has "--strict"
  verbosity :=
    if arguments.has "--verbose" then .verbose
    else if arguments.has "--quiet" then .quiet
    else .normal

/-- What ends a run early. -/
inductive Failure where
  | missingInput (path : String)
  | load (path : String) (error : LoadError)
  | shape (fault : ShapeFault)
  | file (fault : FileFault)
  | build (error : BuildError)
  deriving DecidableEq

/-- An error of a run, in the classes that the program tells apart. -/
inductive Raised where
  /-- A finding in the documentation. -/
  | finding (message : String)
  /-- A value that cannot be used. -/
  | value (message : String)
  /-- A text that is not YAML. -/
  | yaml (message : String)
  /-- The end of the program. -/
  | exit (message : String)
  /-- Any other error. -/
  | other
  deriving DecidableEq

/-- The error that is raised for a text in the file at `path`. -/
def ofLoad (path : String) : LoadError → Raised
  | .malformed reason => .value reason
  | .longInteger digits => .value (longIntegerReason digits)
  | .yaml (.malformed reason) => .yaml reason
  | .yaml (.value reason) => .value reason
  | .noMapping found => .value ("Expected a mapping at the top of " ++ path ++ ", got " ++ found)
  | _ => .other

/-- The error that is raised for a file or a path. -/
def ofFile : FileFault → Raised
  | .hasNul => .value "embedded null byte"
  | .noText reason => .value reason
  | _ => .other

/-- The error that is raised while declarations are generated. -/
def ofBuild (error : BuildError) : Raised :=
  if error.isFinding then .finding error.message else .other

/-- The error that a failure raises. -/
def Failure.raised : Failure → Raised
  | missingInput path => .exit ("Input document not found: " ++ path)
  | load path error => ofLoad path error
  | shape _ => .other
  | file fault => ofFile fault
  | build error => ofBuild error

/-- How a run ends. -/
inductive Ending where
  | finished (status : Nat)
  | failed (failure : Failure)

/-- How the program ends. -/
inductive Exit where
  /-- The program exits with a status. -/
  | status (status : Nat)
  /-- The program exits with a message. -/
  | message (text : String)
  /-- An error that is not handled breaks the program. -/
  | crash (failure : Failure)
  deriving DecidableEq

/-- The end of the program after a run that ended in a way. -/
def Ending.exit : Ending → Exit
  | finished status => .status status
  | failed failure =>
    match failure.raised with
    | .finding message | .value message | .yaml message => .message ("error: " ++ message)
    | .exit message => .message message
    | .other => .crash failure

/-- What the clock says of a run, as the numbers that are written to its report. -/
structure Times where
  /-- When the report was made. -/
  timestamp : String
  /-- How long the run had taken until then. -/
  duration : String
  deriving DecidableEq

/-- The lines for the times of a run. -/
def Times.lines (times : Times) : List (List Char) :=
  ["    \"timestamp\": " ++ times.timestamp ++ ",",
    "    \"duration\": " ++ times.duration ++ ","].map String.toList

/-- The text of a report: its value over several lines, and the times of the run at the start of the
object that is the first one in it. -/
def reportText (times : Times) (report : Json) : String :=
  let lines := (report.indented 0).splitOn '\n'
  String.ofList (List.intercalate ['\n'] (lines.take 2 ++ times.lines ++ lines.drop 2))

example : reportText ⟨"2.5", "0.5"⟩ (.obj [("meta", .obj [("total_classes", .int 1)])]) =
    "\x7b\n  \"meta\": \x7b\n    \"timestamp\": 2.5,\n    \"duration\": 0.5,\n" ++
      "    \"total_classes\": 1\n  \x7d\n\x7d" := by decide +kernel

/-- What is written to a file. -/
inductive Content where
  | declarations (text : String)
  | report (times : Times) (value : Json)

namespace Content

/-- The text of a file. -/
def text : Content → String
  | declarations text => text
  | report times value => reportText times value

end Content

/-- A file that was written. -/
structure WrittenFile where
  /-- The path as it was given. -/
  path : String
  place : Place
  content : Content

/-- What a run did. -/
structure Outcome where
  ending : Ending
  /-- The lines on standard output. -/
  printed : List String
  /-- The lines of the log. -/
  log : List String
  /-- The files written, in their order. -/
  written : List WrittenFile
  /-- What stands on the disk after the run. -/
  disk : Disk

/-- What a run works on. -/
structure Job where
  settings : Settings
  fingerprint : String
  document : Document

/-- The lines that an entry of the log is shown as. -/
def logLine? (verbosity : Verbosity) : LogEntry → Option String
  | .warning d =>
    if verbosity = .quiet then none else some ("WARNING: [" ++ d.code ++ "] " ++ d.message)
  | .info text => if verbosity = .verbose then some ("INFO: " ++ text) else none
  | .debug text => if verbosity = .verbose then some ("DEBUG: " ++ text) else none

/-- The configuration that the options name, or the default one. -/
def loadConfig (readers : Readers) (path? : Option String) (disk : Disk) :
    Except Failure (List (String × Json)) :=
  match path?.map Path.normalise with
  | none => .ok Config.default
  | some path => do
    if ← (disk.isPresent path).mapError .file then
      let text ← (disk.read path).mapError .file
      (Config.load readers text).mapError (.load path)
    else return Config.default

/-- The form of a document by the suffix of its file. -/
def formOf (path : String) : TextForm :=
  if Path.hasSuffix path [".yml", ".yaml"] then .yaml else .json

/-- The fields of the document in a file. -/
def loadDocument (readers : Readers) (path : String) (disk : Disk) :
    Except Failure (List (String × Json)) := do
  let text ← (disk.read path).mapError .file
  (DocumentText.load readers (formOf path) text).mapError (.load path)

/-- The configuration with the name that the options give to the export. -/
def withExportName (name? : Option String) (config : List (String × Json)) :
    List (String × Json) :=
  match name? with
  | some name => Entries.put "export_default" (.str name) config
  | none => config

/-- All that is read before a run. -/
def prepare (readers : Readers) (options : Options) (disk : Disk) : Except Failure Job := do
  if !(← (disk.isPresent options.input).mapError .file) then throw (.missingInput options.input)
  let config := withExportName options.exportName? (← loadConfig readers options.config? disk)
  let settings ← (Settings.ofConfig config).mapError .shape
  let fields ← loadDocument readers options.input disk
  return ⟨settings, Config.fingerprint config (some (Entries.keys Config.default)),
    Document.ofFields fields⟩

/-- The lines of a summary of the model. -/
def summary (m : Model) : List String :=
  ("Namespaces: " ++ toString (m.tree.walk.length - 1)) ::
    ("Classes: " ++ toString m.classes.length) ::
    if m.diagnostics = [] then ["Diagnostics: none"]
    else
      ("Diagnostics: " ++ toString m.diagnostics.length) ::
        (Diagnostic.sortedCounts m.diagnostics).map fun (code, n) =>
          "  " ++ code ++ ": " ++ toString n

/-- Whether a run fails for its diagnostics. -/
def isRejected (options : Options) (m : Model) : Bool :=
  options.isStrict && !m.diagnostics.isEmpty

/-- The line that says why a strict run fails. -/
def strictLines (options : Options) (m : Model) : List String :=
  if isRejected options m then
    ["ERROR: " ++ toString m.diagnostics.length ++ " diagnostics recorded in strict mode"]
  else []

/-- A file to be written, with the line that tells of it. -/
structure Delivery where
  path : String
  /-- The content, or what stopped it from being made. -/
  content : Except BuildError Content
  line : String

/-- Writes one file: the disk after this, and what was written. -/
def Delivery.write (disk : Disk) (delivery : Delivery) : Disk × Except Failure WrittenFile :=
  match disk.makeDirectory (Path.parent delivery.path) with
  | (disk, .error fault) => (disk, .error (.file fault))
  | (disk, .ok ()) =>
    match delivery.content with
    | .error error => (disk, .error (.build error))
    | .ok content =>
      match disk.write delivery.path content.text with
      | (disk, .error fault) => (disk, .error (.file fault))
      | (disk, .ok place) => (disk, .ok ⟨delivery.path, place, content⟩)

/-- What files were written one after the other. -/
structure Delivered where
  /-- The files written, each with its line. -/
  files : List (WrittenFile × String)
  /-- What stopped the others. -/
  failure? : Option Failure
  disk : Disk

/-- What files were written: one that was written or not, and the others if it was. -/
def Delivered.first (line : String) (others : Disk → Delivered) :
    Disk × Except Failure WrittenFile → Delivered
  | (disk, .error failure) => ⟨[], some failure, disk⟩
  | (disk, .ok file) =>
    let others := others disk
    { others with files := (file, line) :: others.files }

/-- Writes files one after the other. -/
def deliver (disk : Disk) : List Delivery → Delivered
  | [] => ⟨[], none, disk⟩
  | delivery :: rest => .first delivery.line (deliver · rest) (delivery.write disk)

/-- What a run generates: the declaration file, and the report with its path. -/
structure Product where
  text : String
  report? : Option (String × Except BuildError Json)

/-- Generates the declaration file of a document and then the report, if a path is given.  What
stops the report does not stop the run before the report is needed. -/
def produce (job : Job) (reportPath? : Option String) : Build Product := do
  let text ← Build.generate job.document
  match reportPath? with
  | some path => return ⟨text, some (path, ← Build.attempt (Report.build job.fingerprint))⟩
  | none => return ⟨text, none⟩

/-- The report as a file to be written. -/
def reportDelivery (times : Times) (path : String) (report : Except BuildError Json) : Delivery :=
  ⟨path, report.map (.report times), "Wrote diagnostics report to: " ++ path⟩

/-- The declarations as a file to be written. -/
def outputDelivery (options : Options) (m : Model) (text : String) : Delivery :=
  ⟨options.output, .ok (.declarations text),
    "Generated declarations for " ++ toString m.classes.length ++ " classes into: " ++
      options.output⟩

/-- The files to be written: the report, and the declarations unless the run is dry. -/
def deliveries (times : Times) (options : Options) (m : Model) (product : Product) :
    List Delivery :=
  (product.report?.map fun (path, report) => reportDelivery times path report).toList ++
    if options.isDryRun then [] else [outputDelivery options m product.text]

/-- The end of a run: files are written and the status is found. -/
def conclude (times : Times) (options : Options) (disk : Disk) (m : Model) (product : Product) :
    Outcome :=
  let delivered := deliver disk (deliveries times options m product)
  let printed := delivered.files.map Prod.snd
  let log := m.log.filterMap (logLine? options.verbosity)
  let written := delivered.files.map Prod.fst
  match delivered.failure? with
  | some failure => ⟨.failed failure, printed, log, written, delivered.disk⟩
  | none =>
    ⟨.finished (if isRejected options m then 1 else 0),
      printed ++ (if options.isDryRun then summary m else []),
      log ++ strictLines options m,
      written, delivered.disk⟩

/-- The outcome of a run that a failure stopped before anything was written. -/
def stopped (options : Options) (disk : Disk) (m? : Option Model) (failure : Failure) : Outcome :=
  ⟨.failed failure, [],
    match m? with
    | some m => m.log.filterMap (logLine? options.verbosity)
    | none => [],
    [], disk⟩

/-- Runs the converter. -/
def run (readers : Readers) (times : Times) (options : Options) (disk : Disk) : Outcome :=
  match prepare readers options disk with
  | .error failure => stopped options disk none failure
  | .ok job =>
    match (produce job options.report?).run (Model.empty job.settings) with
    | .ok product m => conclude times options disk m product
    | .error error m => stopped options disk (some m) (.build error)

end Converter
end Command
end AmbientDecl
