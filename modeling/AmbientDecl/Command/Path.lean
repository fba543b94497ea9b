/- # Paths and places

A path is written with a slash between its components, without empty components and without
those that stand for the same place; the path without components is `.`.  Two slashes at the start
of a path are kept, any other number of them is one.

A path is a way to a place on the disk.  Its component `..` is a step up, so several paths lead to
one place.
-/

import AmbientDecl.Text.Blank

namespace AmbientDecl
namespace Path

/-- The components of a path. -/
def components (path : List Char) : List (List Char) :=
  (path.splitOn '/').filter fun part => part != [] && part != ['.']

/-- The slashes at the start of an absolute path. -/
def root (path : List Char) : List Char :=
  match path.takeWhile (· = '/') with
  | [] => []
  | ['/', '/'] => ['/', '/']
  | _ => ['/']

/-- The path with a root and components. -/
def spell (root : List Char) (components : List (List Char)) : String :=
  match root ++ List.intercalate ['/'] components with
  | [] => "."
  | text => String.ofList text

/-- The usual form of a path. -/
def normalise (path : String) : String :=
  spell (root path.toList) (components path.toList)

/-- The path without its last component; a path without components is its own parent. -/
def parent (path : String) : String :=
  spell (root path.toList) (components path.toList).dropLast

/-- The last component of a path. -/
def fileName (path : String) : List Char :=
  (components path.toList).getLastD []

/-- The suffix of a file name: its last dot and what follows, if something stands on both sides of
the dot. -/
def suffix (path : String) : List Char :=
  let back := (fileName path).reverse
  let extension := back.takeWhile (· ≠ '.')
  match back.dropWhile (· ≠ '.') with
  | _ :: _ :: _ => if extension = [] then [] else '.' :: extension.reverse
  | _ => []

/-- Whether a file name has one of some suffixes, given in lower case. -/
def hasSuffix (path : String) (suffixes : List String) : Bool :=
  suffixes.any fun s => s.toList == (suffix path).map Char.toLower

/-- The steps of a path from its start. -/
def steps (path : String) : List String :=
  (components path.toList).map String.ofList

end Path

/-- A place on the disk. -/
structure Place where
  /-- Whether the way starts at the root and not in the working directory. -/
  isAbsolute : Bool
  /-- The names on the way from the start; a way that leads above the working directory begins
  with steps up. -/
  names : List String
  deriving DecidableEq, Inhabited

namespace Place

/-- The place where a path starts. -/
def startOf (path : String) : Place :=
  ⟨Path.root path.toList != [], []⟩

/-- The place one step up; the root is above itself. -/
def up (place : Place) : Place :=
  match place.names.getLast? with
  | none => if place.isAbsolute then place else { place with names := [".."] }
  | some ".." => { place with names := place.names ++ [".."] }
  | some _ => { place with names := place.names.dropLast }

/-- The place that a component of a path leads to. -/
def step (place : Place) (component : String) : Place :=
  if component = ".." then place.up else { place with names := place.names ++ [component] }

/-- The places on a way, the first and the last one included. -/
def trail (place : Place) : List String → List Place
  | [] => [place]
  | component :: rest => place :: (place.step component).trail rest

/-- The path of a place. -/
def path (place : Place) : String :=
  Path.spell (if place.isAbsolute then ['/'] else []) (place.names.map String.toList)

/-- Whether a place is in the working directory or under it. -/
def isInside (place : Place) : Bool :=
  !place.isAbsolute && place.names.head? != some ".."

end Place
end AmbientDecl
