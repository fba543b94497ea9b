/- # Documentation comments

A comment holds the notice of a deprecated class or member and the first paragraph of its
description, each line after a star.  A text that would close the comment is broken by a
backslash.
-/

import AmbientDecl.Model.Basic
import AmbientDecl.Text.Blank
import AmbientDecl.Text.Pieces

namespace AmbientDecl
namespace DocComment

/-- The start of a line inside a comment. -/
def lineStart : List Char := [' ', '*', ' ']

/-- The lines of a text. -/
def lines (cs : List Char) : List (List Char) := cs.splitOn '\n'

/-- Lines joined by line feeds. -/
def unlines (ls : List (List Char)) : List Char := List.intercalate ['\n'] ls

/-- The first paragraph of a description, with its lines continued inside a comment. -/
def abbreviate (text : String) : String :=
  let paragraph := Text.beforeEmptyLine (Text.trim (Text.plainLineEnds text.toList))
  String.ofList (List.intercalate ('\n' :: lineStart) ((lines paragraph).map Text.trim))

/-- A text in which nothing closes a comment. -/
def breakClosers : List Char → List Char
  | [] => []
  | '*' :: '/' :: cs => '*' :: '\\' :: '/' :: breakClosers cs
  | c :: cs => c :: breakClosers cs

/-- A line of a comment, without blanks at its end. -/
def commentLine (line : String) : List Char :=
  Text.trimEnd (lineStart ++ line.toList)

/-- The comment with the given lines, or none when there are no lines. -/
def format? (ls : List String) : Option String :=
  if ls = [] then none
  else
    some (String.ofList ("/**\n".toList ++ breakClosers (unlines (ls.map commentLine)) ++
      "\n */".toList))

/-- Every line of a text after an indentation. -/
def indent (indentation text : String) : List String :=
  (lines text.toList).map fun line => indentation ++ String.ofList line

/-- The line that says what to do instead of using a deprecated thing. -/
def deprecationLine (notice : Notice) : String :=
  String.ofList (Text.trimEnd ("DEPRECATED: " ++ notice.deprecation).toList)

/-- The line for a description that is not empty. -/
def descriptionLines (notice : Notice) : List String :=
  if notice.description = "" then [] else [abbreviate notice.description]

/-- The comment of a class. -/
def ofClass? (c : Class) : Option String :=
  let notice := c.record.notice
  format? ((if notice.deprecated then [deprecationLine notice] else []) ++
    descriptionLines notice)

/-- The comment of a member of a class; a member of a deprecated class inherits its notice. -/
def ofMember? (owner : Class) (member : Member) : Option String :=
  let notice := member.item.notice
  let inherited := owner.record.notice
  format? ((if notice.deprecated then [deprecationLine notice]
    else if inherited.deprecated then [deprecationLine inherited] else []) ++
    descriptionLines notice)

end DocComment
end AmbientDecl
