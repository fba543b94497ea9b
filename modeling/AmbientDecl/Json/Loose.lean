/- # Loose readings of a value

Documentation records are filled from comments written by hand, and a field may hold a value of
any type.  A field is read by three loose rules.

* **Truth.** `null`, `false`, `0` and everything empty count as absent.
* **Display.** A text is shown as it is.  Other values are shown as `None`, `True`, `False`, a
  decimal number, `[…]` with the spelling of each element, or `{…}` with the spelling of each
  key and value; inside brackets a text is spelled in quotes.
* **Elements.** The elements of a list are its items, of a text its characters, of an object its
  keys.  Other values have no elements.

An absent value reads as an empty list and as an empty table.
-/

import AmbientDecl.Json.Basic
import AmbientDecl.Text.Quoted

namespace AmbientDecl
namespace Json

/-- Whether a field counts as present. -/
def isTruthy : Json → Bool
  | null => false
  | bool b => b
  | int n => n != 0
  | str s => s != ""
  | arr items => !items.isEmpty
  | obj members => !members.isEmpty

mutual

/-- How a value is spelled inside brackets. -/
def spelled : Json → String
  | null => "None"
  | bool b => if b then "True" else "False"
  | int n => toString n
  | str s => Text.quoted s
  | arr items => "[" ++ ", ".intercalate (spelledItems items) ++ "]"
  | obj members => "\x7b" ++ ", ".intercalate (spelledMembers members) ++ "\x7d"

/-- The spellings of the elements of a list. -/
def spelledItems : List Json → List String
  | [] => []
  | item :: rest => spelled item :: spelledItems rest

/-- The spellings of the members of an object. -/
def spelledMembers : List (String × Json) → List String
  | [] => []
  | (key, value) :: rest => (Text.quoted key ++ ": " ++ spelled value) :: spelledMembers rest

end

/-- How a value is shown in a text. -/
def display : Json → String
  | str s => s
  | value => spelled value

/-- The elements of a value, or `none` for a value that has none. -/
def elements? : Json → Option (List Json)
  | arr items => some items
  | str s => some (s.toList.map fun c => str (String.singleton c))
  | obj members => some (members.map fun (key, _) => str key)
  | _ => none

/-- The elements of a value that may be absent. -/
def list? (value : Json) : Option (List Json) :=
  if value.isTruthy then value.elements? else some []

/-- The members of a value that may be absent; a present value that is no object has none. -/
def table? (value : Json) : Option (List (String × Json)) :=
  if value.isTruthy then
    match value with
    | obj members => some members
    | _ => none
  else some []

/-- The text that a value is, if it is one. -/
def text? : Json → Option String
  | str s => some s
  | _ => none

/-- Texts joined by a separator; only texts can be joined. -/
def join? (separator : String) (values : List Json) : Option String :=
  (values.mapM text?).map separator.intercalate

/-- A value read as present or absent. -/
def present? (value : Json) : Option Json :=
  if value.isTruthy then some value else none

/-- A field of an object; a field that is missing reads as `null`. -/
def field (members : List (String × Json)) (key : String) : Json :=
  (Entries.get? key members).getD null

/-- The display of a present field; an absent one is the empty text. -/
def textOrEmpty (value : Json) : String :=
  if value.isTruthy then value.display else ""

/-- The word for the type of a value in a message. -/
def typeWord : Json → String
  | null => "NoneType"
  | bool _ => "bool"
  | int _ => "int"
  | str _ => "str"
  | arr _ => "list"
  | obj _ => "dict"

@[simp] theorem text?_str (s : String) : text? (str s) = some s := rfl

/-- An object is a table of its members, the empty one included. -/
@[simp] theorem table?_obj (members : List (String × Json)) :
    table? (obj members) = some members := by
  cases members <;> simp [table?, isTruthy]

theorem join?_map_str (separator : String) (texts : List String) :
    join? separator (texts.map str) = some (separator.intercalate texts) := by
  have h : (texts.map str).mapM text? = some texts := by
    induction texts with
    | nil => rfl
    | cons text rest ih => simp [ih]
  simp [join?, h]

end Json
end AmbientDecl
