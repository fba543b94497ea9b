/- # Configurations and documents from texts

A file with the suffix `.yml` or `.yaml` holds its value in YAML; any other file holds JSON.  YAML
is read by a library, which is a parameter of the functions below, and so is the text of the error
for what is no JSON.

An integer in JSON has at most 4300 digits.  The first fault of a text is told, be it of syntax or
a long integer.

A configuration is merged over the default one; one that counts as absent changes nothing.  A
document is an object, in which missing classes and items are empty.
-/

import AmbientDecl.Config.Default
import AmbientDecl.Config.Merge
import AmbientDecl.Json.Loose
import AmbientDecl.Json.Reader

namespace AmbientDecl

/-- The form of a text that holds a value. -/
inductive TextForm where
  | json
  | yaml
  deriving DecidableEq

/-- Why a text in YAML gives no value. -/
inductive YamlFault where
  /-- The text is not YAML, for a reason. -/
  | malformed (reason : String)
  /-- A value in the text cannot be made, for a reason. -/
  | value (reason : String)
  /-- The reader breaks in another way. -/
  | broken
  /-- The text holds a value that is none of `Json`. -/
  | foreign
  deriving DecidableEq

/-- What a library tells of a text. -/
structure Readers where
  /-- The value that a text in YAML holds. -/
  yaml : String → Except YamlFault Json
  /-- Why a text is not JSON. -/
  jsonReason : String → String

/-- Why a text does not give what it should hold. -/
inductive LoadError where
  /-- The text is not JSON, for a reason. -/
  | malformed (reason : String)
  /-- An integer in a JSON text has too many digits. -/
  | longInteger (digits : Nat)
  /-- The text is JSON, but it holds a value that is none of `Json`. -/
  | foreign
  /-- The text gives no value as YAML. -/
  | yaml (fault : YamlFault)
  /-- The value of a document is no object; `found` is the word for its type. -/
  | noMapping (found : String)
  /-- The value of a configuration has no members. -/
  | noMembers
  deriving DecidableEq

/-- The most digits of an integer in a text. -/
def digitLimit : Nat := 4300

/-- What is said of an integer with too many digits. -/
def longIntegerReason (digits : Nat) : String :=
  "Exceeds the limit (" ++ toString digitLimit ++ " digits) for integer string " ++
    "conversion: value has " ++ toString digits ++ " digits; use " ++
    "sys.set_int_max_str_digits() to increase the limit"

/-- Whether a text is read that holds a value which is none of `Json`. -/
def LoadError.isForeign : LoadError → Bool
  | foreign | yaml .foreign => true
  | _ => false

/-- The error for a fault in a JSON text, where a reason is given for one that is not JSON. -/
def LoadError.ofJson (reason : String) : Json.TextFault → LoadError
  | .malformed => malformed reason
  | .longInteger digits => longInteger digits
  | .foreign => foreign

/-- The value that a text of a form holds. -/
def TextForm.read (readers : Readers) (form : TextForm) (text : String) : Except LoadError Json :=
  match form with
  | .json => (Json.read (some digitLimit) text).mapError (.ofJson (readers.jsonReason text))
  | .yaml => (readers.yaml text).mapError .yaml

namespace Config

/-- The default configuration with the value of a text merged over it. -/
def load (readers : Readers) (text : String) : Except LoadError (List (String × Json)) := do
  let value ← TextForm.yaml.read readers text
  if value.isTruthy then
    match value with
    | .obj members => return merge default members
    | _ => throw .noMembers
  else return default

end Config

namespace DocumentText

/-- The fields of the document that a text holds. -/
def load (readers : Readers) (form : TextForm) (text : String) :
    Except LoadError (List (String × Json)) := do
  match ← form.read readers text with
  | .null => return [("classes", .obj []), ("classitems", .arr [])]
  | .obj fields =>
    return Entries.putNew "classitems" (.arr []) (Entries.putNew "classes" (.obj []) fields)
  | value => throw (.noMapping value.typeWord)

end DocumentText
end AmbientDecl
