/- # The files that a command sees

What stands at each place of the disk, and what writing a file changes.

* A file holds a text, or bytes that are no text.  A text is read with a line feed for every
  carriage return and for every carriage return before a line feed.
* A path leads to a place if a directory stands at every place on the way.
* No path holds the character NUL.  A path that does is refused before the first step.
* A path has at most 4095 bytes, and a name on it at most 255.  Whether a path leads to something
  cannot be said of one that is longer, or where the way comes to a longer name.
* The directory of a path is made in this way: if the way to it lacks a directory, the directory
  one component shorter is made before it.  What was made stays if a later directory cannot be made.
-/

import AmbientDecl.Command.Path

namespace AmbientDecl
namespace Command

/-- What stands at a place. -/
inductive FileState where
  | missing
  | directory
  /-- A file with a text. -/
  | text (content : String)
  /-- A file with bytes that are no text, for a reason. -/
  | bytes (reason : String)
  deriving DecidableEq

/-- Whether a file stands at a place. -/
def FileState.isFile : FileState → Bool
  | text _ | bytes _ => true
  | missing | directory => false

/-- What stands at every place. -/
abbrev Disk := Place → FileState

/-- Why a path cannot be used. -/
inductive FileFault where
  /-- A directory stands at the place of the file. -/
  | isDirectory
  /-- A file stands at the place of the directory. -/
  | isFile
  /-- A file stands on the way. -/
  | fileOnWay
  /-- Nothing is there, or on the way. -/
  | isMissing
  /-- The path or a name on it has too many bytes. -/
  | isTooLong
  /-- The path holds the character NUL. -/
  | hasNul
  /-- The bytes of the file are no text, for a reason. -/
  | noText (reason : String)
  deriving DecidableEq

/-- The text that is read from a file: every carriage return, with a line feed after it or not, is a
line feed. -/
def readLines : List Char → List Char
  | '\r' :: '\n' :: cs => '\n' :: readLines cs
  | '\r' :: cs => '\n' :: readLines cs
  | c :: cs => c :: readLines cs
  | [] => []

namespace Disk

/-- The most bytes of a path. -/
def longestPath : Nat := 4095

/-- The most bytes of a name. -/
def longestName : Nat := 255

/-- The place where a path starts, if the path may be used. -/
def start (path : String) : Except FileFault Place :=
  if '\x00' ∈ path.toList then .error .hasNul
  else if longestPath < path.utf8ByteSize then .error .isTooLong
  else .ok (Place.startOf path)

/-- The place that components lead to from another one. -/
def walk (disk : Disk) (place : Place) : List String → Except FileFault Place
  | [] => .ok place
  | component :: rest =>
    match disk place with
    | .directory =>
      if longestName < component.utf8ByteSize then .error .isTooLong
      else disk.walk (place.step component) rest
    | .missing => .error .isMissing
    | .text _ | .bytes _ => .error .fileOnWay

/-- The place that a path leads to. -/
def locate (disk : Disk) (path : String) : Except FileFault Place := do
  disk.walk (← start path) (Path.steps path)

/-- Whether a path leads to something. -/
def isPresent (disk : Disk) (path : String) : Except FileFault Bool :=
  match disk.locate path with
  | .ok place => .ok (disk place != .missing)
  | .error .isTooLong => .error .isTooLong
  | .error _ => .ok false

/-- The text of a file. -/
def read (disk : Disk) (path : String) : Except FileFault String := do
  match disk (← disk.locate path) with
  | .text content => return String.ofList (readLines content.toList)
  | .bytes reason => throw (.noText reason)
  | .directory => throw .isDirectory
  | .missing => throw .isMissing

/-- The disk with one place changed. -/
def set (disk : Disk) (place : Place) (state : FileState) : Disk := fun other =>
  if other = place then state else disk other

/-- Makes a directory at the place that components lead to; one that is there stays. -/
def makeLast (disk : Disk) (start : Place) (components : List String) :
    Disk × Except FileFault Unit :=
  match disk.walk start components with
  | .error fault => (disk, .error fault)
  | .ok place =>
    match disk place with
    | .missing => (disk.set place .directory, .ok ())
    | .directory => (disk, .ok ())
    | .text _ | .bytes _ => (disk, .error .isFile)

/-- Makes the directory that components lead to, given with the last one first, and all directories
that the way to it lacks. -/
def makeAll (disk : Disk) (start : Place) : List String → Disk × Except FileFault Unit
  | [] => (disk, .ok ())
  | last :: before =>
    match disk.makeLast start (last :: before).reverse with
    | (disk, .error .isMissing) =>
      match disk.makeAll start before with
      | (disk, .ok ()) => disk.makeLast start (last :: before).reverse
      | stopped => stopped
    | made => made

/-- Makes a directory at the place that a path leads to. -/
def makeDirectory (disk : Disk) (path : String) : Disk × Except FileFault Unit :=
  match start path with
  | .error fault => (disk, .error fault)
  | .ok place => disk.makeAll place (Path.steps path).reverse

/-- Writes a text to a file: the disk with the file, and the place that its path leads to. -/
def write (disk : Disk) (path text : String) : Disk × Except FileFault Place :=
  match disk.locate path with
  | .error fault => (disk, .error fault)
  | .ok place =>
    match disk place with
    | .directory => (disk, .error .isDirectory)
    | _ => (disk.set place (.text text), .ok place)

end Disk
end Command
end AmbientDecl
