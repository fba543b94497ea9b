/- # JSON texts

Values written out.  On one line, a comma and a colon are followed by one space; over several
lines, every element and member stands on a line of its own, two spaces deeper than its
bracket, and a comma is followed by the line break alone.  A text is written in ASCII: the
quote, the backslash, the backspace, the form feed, the line feed, the carriage return and the
tab have two-character escapes, and every other character outside `U+0020`–`U+007E` is written
`\uNNNN` once per UTF-16 unit.

The **canonical** text of a value is the one-line text after sorting the members of every object
by key.  It depends on the content of the value and not on the order of its members.
-/

import AmbientDecl.Json.Basic
import AmbientDecl.Text.Quoted

namespace AmbientDecl
namespace Json

/-- The UTF-16 units of a character. -/
def utf16Units (c : Char) : List Nat :=
  let n := c.toNat
  if n < 0x10000 then [n]
  else [0xD800 + (n - 0x10000) / 0x400, 0xDC00 + (n - 0x10000) % 0x400]

/-- One character inside a written text. -/
def writtenChar (c : Char) : List Char :=
  if c = '\x22' then ['\\', '\x22']
  else if c = '\\' then ['\\', '\\']
  else if c = '\n' then ['\\', 'n']
  else if c = '\r' then ['\\', 'r']
  else if c = '\t' then ['\\', 't']
  else if c = '\x08' then ['\\', 'b']
  else if c = '\x0c' then ['\\', 'f']
  else if 0x20 ≤ c.toNat ∧ c.toNat ≤ 0x7E then [c]
  else (utf16Units c).flatMap fun unit => '\\' :: 'u' :: Text.hexDigits 4 unit

/-- A text between double quotes. -/
def writtenText (s : String) : List Char :=
  '\x22' :: s.toList.flatMap writtenChar ++ ['\x22']

/-- The text of a value without elements. -/
def writtenScalar : Json → List Char
  | null => "null".toList
  | bool b => if b then "true".toList else "false".toList
  | int n => (toString n).toList
  | str s => writtenText s
  | arr _ => "[]".toList
  | obj _ => ['\x7b', '\x7d']

mutual

/-- The one-line text of a value. -/
def oneLine : Json → List Char
  | arr items => '[' :: oneLineItems items ++ [']']
  | obj members => '\x7b' :: oneLineMembers members ++ ['\x7d']
  | value => writtenScalar value

/-- The elements of a list, with separators. -/
def oneLineItems : List Json → List Char
  | [] => []
  | [item] => oneLine item
  | item :: next :: rest => oneLine item ++ ',' :: ' ' :: oneLineItems (next :: rest)

/-- The members of an object, with separators. -/
def oneLineMembers : List (String × Json) → List Char
  | [] => []
  | [(key, value)] => writtenText key ++ ':' :: ' ' :: oneLine value
  | (key, value) :: next :: rest =>
    writtenText key ++ ':' :: ' ' :: oneLine value ++ ',' :: ' ' :: oneLineMembers (next :: rest)

end

/-- Inserts a member before the first one with a greater key. -/
def insertByKey (entry : String × Json) : List (String × Json) → List (String × Json)
  | [] => [entry]
  | head :: rest =>
    if entry.1 < head.1 then entry :: head :: rest else head :: insertByKey entry rest

mutual

/-- The value with the members of every object sorted by key. -/
def sorted : Json → Json
  | arr items => arr (sortedItems items)
  | obj members => obj (sortedMembers members)
  | value => value

/-- Every element sorted. -/
def sortedItems : List Json → List Json
  | [] => []
  | item :: rest => sorted item :: sortedItems rest

/-- Every member sorted, and the members by key. -/
def sortedMembers : List (String × Json) → List (String × Json)
  | [] => []
  | (key, value) :: rest => insertByKey (key, sorted value) (sortedMembers rest)

end

/-- The canonical text of a value. -/
def canonical (value : Json) : List Char :=
  oneLine (sorted value)

/-- A line break and the indentation of a depth. -/
def newLine (depth : Nat) : List Char :=
  '\n' :: List.replicate (2 * depth) ' '

mutual

/-- The text of a value over several lines, at a depth. -/
def indented (depth : Nat) : Json → List Char
  | arr (item :: rest) =>
    '[' :: newLine (depth + 1) ++ indented (depth + 1) item ++ indentedItems (depth + 1) rest ++
      newLine depth ++ [']']
  | obj ((key, value) :: rest) =>
    '\x7b' :: newLine (depth + 1) ++ writtenText key ++ ':' :: ' ' :: indented (depth + 1) value ++
      indentedMembers (depth + 1) rest ++ newLine depth ++ ['\x7d']
  | value => writtenScalar value

/-- The elements after the first, each after a comma and a line break. -/
def indentedItems (depth : Nat) : List Json → List Char
  | [] => []
  | item :: rest => ',' :: newLine depth ++ indented depth item ++ indentedItems depth rest

/-- The members after the first, each after a comma and a line break. -/
def indentedMembers (depth : Nat) : List (String × Json) → List Char
  | [] => []
  | (key, value) :: rest =>
    ',' :: newLine depth ++ writtenText key ++ ':' :: ' ' :: indented depth value ++
      indentedMembers depth rest

end

end Json
end AmbientDecl
