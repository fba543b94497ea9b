/- # Types as they are written

The text that documentation gives for a type, without the blanks around it, is read as one of
four things.

* An empty text says nothing, and the type is `any`.
* A text that starts with a brace which is closed on the same line holds a type expression
  between the braces, up to the last closing brace of that line.  If it is none, the braces hold
  the shape of an object and are kept as they stand.
* Any other text starts with a type expression, and the rest is prose.
* A text that is not readable keeps its first word.
-/

import AmbientDecl.Text.Pieces
import AmbientDecl.TypeExpr.Lowered
import AmbientDecl.TypeExpr.Reader

namespace AmbientDecl

/-- What the text of a type says. -/
inductive WrittenType where
  | absent
  | expression (e : TypeExpr)
  /-- The shape of an object, by what stands between its braces. -/
  | shape (interior : String)
  | unreadable (error : TypeExpr.SyntaxError)

namespace WrittenType

/-- What stands between the brace at the start of a text and the last closing brace of its first
line; something has to stand there. -/
def interior? : List Char → Option (List Char)
  | '\x7b' :: cs =>
    match Text.beforeLast? '\x7d' (cs.takeWhile (· ≠ '\n')) with
    | some [] => none
    | found => found
  | _ => none

/-- The reading of a text without blanks around it. -/
def ofTrimmed (text : List Char) : WrittenType :=
  if text = [] then absent
  else
    match interior? text with
    | some inside =>
      let interior := String.ofList (Text.trim inside)
      match TypeExpr.read interior with
      | .ok e => expression e
      | .error _ => shape interior
    | none =>
      match TypeExpr.read (String.ofList text) with
      | .ok e => expression e
      | .error error => unreadable error

/-- The reading of a text. -/
def ofText (text : String) : WrittenType :=
  ofTrimmed (Text.trim text.toList)

/-- The lowered type. -/
def lower (naming : TypeExpr.Naming) : WrittenType → Except ShapeFault Json
  | absent => .ok (.str "any")
  | expression e => e.lower naming
  | shape interior => .ok (.str ("\x7b" ++ interior ++ "\x7d"))
  | unreadable error => .ok (.str (String.ofList (Text.firstWord error.text.toList)))

end WrittenType
end AmbientDecl
