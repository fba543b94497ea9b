/- # Signatures

The declaration of a member.  A method lists its parameters, a rest parameter last; where one
comes earlier, a second declaration without it follows.  A question mark marks an optional
parameter if no required one comes after it.  Names that are no identifiers stand in quotes.

A rest parameter needs a type with branches; any other type is at fault there.
-/

import AmbientDecl.Model.Basic
import AmbientDecl.TypeExpr.Lowered

namespace AmbientDecl
namespace Signature

/-- The characters outside ASCII that are equal to a letter when case is ignored: the dotted and
the dotless `i`, the long `s` and the kelvin sign. -/
def isFoldedLetter (c : Char) : Bool :=
  c = '\u0130' || c = '\u0131' || c = '\u017f' || c = '\u212a'

/-- A character that an identifier may start with. -/
def isIdentifierStart (c : Char) : Bool :=
  c.isAlpha || c = '_' || c = '$' || isFoldedLetter c

/-- A character that an identifier may hold. -/
def isIdentifierChar (c : Char) : Bool :=
  isIdentifierStart c || c.isDigit

/-- Whether a text is an identifier, where one line feed at the end does not count. -/
def isIdentifier : List Char → Bool
  | [] => false
  | c :: cs =>
    isIdentifierStart c &&
      (let rest := cs.dropWhile isIdentifierChar
       rest == [] || rest == ['\n'])

/-- A character inside single quotes. -/
def escapedChar (c : Char) : List Char :=
  if c = '\\' ∨ c = '\x27' then ['\\', c] else [c]

/-- The name of a member: as it is, or quoted. -/
def memberName (name : String) : String :=
  if isIdentifier name.toList then name
  else String.ofList ('\x27' :: name.toList.flatMap escapedChar ++ ['\x27'])

/-- The type of the elements of a rest parameter: the first branch of its type. -/
def restElement (type : Json) : Except ShapeFault Json := do
  let first := (← ShapeFault.required .unfit (TypeText.branchesOf? type)).headD type
  return if first matches .str "\x7b\x7d" then .str "any" else first

/-- Whether a parameter may be left out without leaving out a required one. -/
def canFollowGap (param : Param) : Bool :=
  param.isOptional || param.isRest

/-- Whether a parameter has a question mark, with those after it. -/
def isMarked (param : Param) (following : List Param) : Bool :=
  param.isOptional && !param.isRest && following.all canFollowGap

/-- One parameter of a list, with those after it. -/
def paramText (param : Param) (following : List Param) : Except ShapeFault String := do
  let name := param.name.display
  if param.isRest then
    return "..." ++ name ++ ": " ++ (← restElement param.type).display ++ "[]"
  else
    return name ++ (if isMarked param following then "?: " else ": ") ++ param.type.display

/-- The texts of the parameters of a list. -/
def paramTexts : List Param → Except ShapeFault (List String)
  | [] => .ok []
  | param :: following => do
    let text ← paramText param following
    return text :: (← paramTexts following)

/-- A list of parameters. -/
def params (ps : List Param) : Except ShapeFault String := do
  return ", ".intercalate (← paramTexts ps)

/-- What stands before the name of a member of a class. -/
def keyword (owner : Class) (member : Member) : String :=
  if owner.isPlainNamespace then if member.isMethod then "function " else "var "
  else if member.item.isStatic then "static " else ""

/-- The return type after a list of parameters. -/
def returnClause (member : Member) : String :=
  match member.returnType with
  | some type => if type.isTruthy then ": " ++ type.display else ""
  | none => ""

/-- The parameters up to the first rest parameter, which may be left out. -/
def declaredParams (member : Member) (withRest : Bool) : List Param :=
  match member.restIndex? with
  | none => member.params
  | some rest => member.params.take (if withRest then rest + 1 else rest)

/-- The declaration of a member of a class. -/
def declare (owner : Class) (member : Member) (withRest : Bool) : Except ShapeFault String := do
  let name := keyword owner member ++ memberName member.item.name
  if member.isMethod then
    let list ← params (declaredParams member withRest)
    return name ++ "(" ++ list ++ ")" ++ returnClause member
  else return name ++ ": " ++ member.type.display

/-- Whether a rest parameter is followed by another parameter. -/
def needsOverload (member : Member) : Bool :=
  match member.restIndex? with
  | none => false
  | some rest => rest + 1 != member.params.length

/-- The declarations of a member of a class. -/
def declarations (owner : Class) (member : Member) : Except ShapeFault (List String) := do
  let full ← declare owner member true
  if needsOverload member then return [full, ← declare owner member false]
  else return [full]

end Signature
end AmbientDecl
