/- # The pipeline

YUIDoc parses a source directory into a document, and the converter turns the document into
declarations.  A command that fails ends the pipeline with its status, and nothing is run after
it.
-/

import AmbientDecl.Command.Arguments

namespace AmbientDecl
namespace Command
namespace Pipeline

/-- The grammar of the command line. -/
def grammar : Grammar where
  options := [
    ⟨["--help", "-h"], .help, false⟩,
    ⟨["--out"], .value, false⟩,
    ⟨["--skip-yuidoc"], .switch, false⟩,
    ⟨["--config"], .value, false⟩,
    ⟨["--report"], .value, false⟩,
    ⟨["--strict"], .switch, false⟩]
  positionals := [⟨"source", false⟩]

/-- What the pipeline is asked to do. -/
structure Options where
  source : String
  output : String
  skipsDocumentation : Bool
  config : String
  report : String
  isStrict : Bool
  deriving DecidableEq

/-- The options that a command line gives; a configuration or a report with an empty path or one
without words is as good as none. -/
def Options.ofArguments (arguments : Arguments) : Options where
  source := (arguments.text? "source").getD "packages"
  output := ((arguments.value? "--out").getD (.word "index.d.ts")).display
  skipsDocumentation := arguments.has "--skip-yuidoc"
  config := (arguments.text? "--config").getD ""
  report := (arguments.text? "--report").getD ""
  isStrict := arguments.has "--strict"

/-- Where the pipeline stands. -/
structure Site where
  /-- The path of the directory of the pipeline, without a slash at its end. -/
  root : String
  /-- The words of a command that starts the converter. -/
  converter : List String

/-- The directory of the documentation. -/
def Site.docs (site : Site) : String := site.root ++ "/docs"

/-- A step: its title and its command. -/
structure Step where
  title : String
  words : List String
  deriving DecidableEq

/-- An option with a value, left out when the value is empty. -/
def optionWords (name value : String) : List String :=
  if value = "" then [] else [name, value]

/-- The arguments of the converter. -/
def converterArguments (site : Site) (options : Options) : List String :=
  [site.docs ++ "/data.json", options.output] ++ optionWords "--config" options.config ++
    optionWords "--report" options.report ++ if options.isStrict then ["--strict"] else []

/-- The step that parses the sources. -/
def documentationStep (site : Site) (options : Options) : Step :=
  ⟨"--- Step 1: Generating YUIDoc data ---",
    ["npx", "yuidoc", "--parse-only", "--outdir", site.docs, options.source]⟩

/-- The step that runs the converter. -/
def conversionStep (site : Site) (options : Options) : Step :=
  ⟨"\n--- Step 2: Converting YUIDoc data to TypeScript declarations ---",
    site.converter ++ converterArguments site options⟩

/-- The steps of the pipeline. -/
def steps (site : Site) (options : Options) : List Step :=
  (if options.skipsDocumentation then [] else [documentationStep site options]) ++
    [conversionStep site options]

/-- What the pipeline did: the commands, the lines printed and the status. -/
structure Outcome where
  commands : List (List String)
  printed : List String
  status : Int
  deriving DecidableEq

/-- A command as one line. -/
def commandLine (words : List String) : String := " ".intercalate words

/-- Runs steps with the statuses that their commands will return, and zero where none is left;
`last` is printed after the last step. -/
def runSteps (last : String) : List Step → (statuses : List Int) → Outcome
  | [], _ => ⟨[], [last], 0⟩
  | step :: rest, statuses =>
    let status := statuses.headD 0
    let started := [step.title, "Running: " ++ commandLine step.words]
    if status = 0 then
      let outcome := runSteps last rest statuses.tail
      ⟨step.words :: outcome.commands, started ++ outcome.printed, outcome.status⟩
    else
      ⟨[step.words], started ++ ["Error executing command: " ++ commandLine step.words], status⟩

/-- Runs the pipeline. -/
def run (site : Site) (options : Options) (statuses : List Int) : Outcome :=
  runSteps ("\nSUCCESS: Declarations generated in " ++ options.output) (steps site options) statuses

end Pipeline
end Command
end AmbientDecl
