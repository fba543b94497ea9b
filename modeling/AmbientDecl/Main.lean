/- # The converter as a program

Reads the command line, looks at the places that it names, runs the converter, and then writes what
it gave: the files, the lines on standard output and the log on standard error.
-/

import AmbientDecl.Command.Converter
import AmbientDecl.Config.Flow

namespace AmbientDecl
namespace Program

open Command
open Command.Converter

/-- What stands at a place of the disk. -/
def stateAt (path : String) : IO FileState := do
  try
    let bytes ← IO.FS.readBinFile path
    match String.fromUTF8? bytes with
    | some content => return .text content
    | none => return .bytes "the file is not in UTF-8"
  catch
    | .noFileOrDirectory _ _ _ => return .missing
    | _ => return .directory

/-- The places that a run may look at. -/
def placesOf (options : Options) : List Place :=
  let paths := options.input :: options.output :: options.report?.toList ++
    (options.config?.map Path.normalise).toList
  paths.flatMap fun path => (Place.startOf path).trail (Path.steps path)

/-- What stands at some places, as a disk with nothing else on it. -/
def diskWith (places : List Place) : IO Disk := do
  let states ← places.mapM fun place => return (place, ← stateAt place.path)
  return fun place => (states.lookup place).getD .missing

/-- Writes a file with the directories above it. -/
def writeFile (file : WrittenFile) : IO Unit := do
  IO.FS.createDirAll (Path.parent file.path)
  IO.FS.writeFile file.path file.content.text

/-- What is shown of a failure that breaks the program. -/
def crashText : Failure → String
  | .load path _ => path ++ " is not readable"
  | .file _ => "a file cannot be read or written"
  | _ => "a value in the document or the configuration has the wrong type"

/-- Shows what a run did; the answer is the status of the program. -/
def deliverOutcome (outcome : Outcome) : IO UInt32 := do
  for line in outcome.log do IO.eprintln line
  for file in outcome.written do writeFile file
  for line in outcome.printed do IO.println line
  match outcome.ending.exit with
  | .status status => return status.toUInt32
  | .message text =>
    IO.eprintln text
    return 1
  | .crash failure =>
    IO.eprintln (crashText failure)
    return 1

/-- Milliseconds as seconds with three digits after the point. -/
def secondsText (milliseconds : Nat) : String :=
  let thousandths := toString (milliseconds % 1000)
  toString (milliseconds / 1000) ++ "." ++ "".pushn '0' (3 - thousandths.length) ++ thousandths

/-- The times of a run that starts now; the clock counts from the start of the system. -/
def timesNow : IO Times :=
  return ⟨secondsText (← IO.monoMsNow), secondsText 0⟩

/-- Runs the converter on a command line. -/
def runLine (line : List String) : IO UInt32 := do
  match Converter.grammar.read line with
  | .help =>
    IO.println usage
    return 0
  | .refused =>
    IO.eprintln usage
    return 2
  | .accepted arguments =>
    let options := Options.ofArguments arguments
    let disk ← diskWith (placesOf options)
    deliverOutcome (run Flow.readers (← timesNow) options disk)

end Program
end AmbientDecl

/-- Runs the converter on the command line of the program. -/
def main (line : List String) : IO UInt32 :=
  AmbientDecl.Program.runLine line
