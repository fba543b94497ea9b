/- # YAML texts in flow style

A reader for a part of YAML: blank texts, JSON texts, and texts of opening brackets that nothing
closes.  YAML writes lists and objects in flow style as JSON does, so a JSON text is a YAML text
with the same value, but for three rules.

* A text has printable characters alone, with tabs and line breaks among them.
* No tab stands outside of quotes.
* A colon stands on the line of its key, at most 1024 characters after the start of the key.

A character that is not printable is a fault before all others; the other faults come to light in
their order.  An integer has at most 4300 digits, and a long one is looked for in the value of a
text without other faults, level by level.

The part ends where a JSON text could have another value as YAML: at line breaks that JSON does not
know, and at halves of surrogate pairs.  What is said of a text outside of it is that its value is
none of `Json`.
-/

import AmbientDecl.Config.Load
import AmbientDecl.Json.Digits

namespace AmbientDecl
namespace Flow

/-- Why a JSON text is not one in flow style. -/
inductive Fault where
  /-- The text has a character that is not printable. -/
  | unprintable
  /-- A tab stands outside of quotes. -/
  | tab
  /-- A colon is too far from its key. -/
  | farColon
  deriving DecidableEq

/-- Whether a character may stand in a text. -/
def isPrintable (c : Char) : Bool :=
  let n := c.toNat
  n = 0x9 || n = 0xA || n = 0xD || (0x20 ≤ n && n ≤ 0x7E) || n = 0x85 ||
    (0xA0 ≤ n && n ≤ 0xFFFD) || 0x10000 ≤ n

/-- The most characters from the start of a key to its colon. -/
def longestKey : Nat := 1024

/-- What stands before a character. -/
inductive Mode where
  /-- Nothing that could be a key. -/
  | apart
  /-- The inside of quotes, with so many characters from the opening one on. -/
  | quoted (length : Nat)
  /-- The same, after a backslash. -/
  | escaped (length : Nat)
  /-- A text in quotes and blanks after it, with so many characters and on one line or not. -/
  | after (length : Nat) (onOneLine : Bool)
  deriving DecidableEq

/-- A character where nothing before it could be a key. -/
def stepApart (c : Char) : Except Fault Mode :=
  if c = '\x22' then .ok (.quoted 1)
  else if c = '\t' then .error .tab
  else .ok .apart

/-- One character. -/
def step : Mode → Char → Except Fault Mode
  | .quoted length, c =>
    if c = '\x22' then .ok (.after (length + 1) true)
    else if c = '\\' then .ok (.escaped (length + 1))
    else .ok (.quoted (length + 1))
  | .escaped length, _ => .ok (.quoted (length + 1))
  | .apart, c => stepApart c
  | .after length onOneLine, c =>
    if c = ' ' then .ok (.after (length + 1) onOneLine)
    else if c = '\n' || c = '\r' then .ok (.after (length + 1) false)
    else if c = ':' then
      if onOneLine && length ≤ longestKey then .ok .apart else .error .farColon
    else stepApart c

/-- The fault of a JSON text as one in flow style, if there is one. -/
def fault? (text : String) : Option Fault :=
  if text.toList.all isPrintable then
    match text.toList.foldlM step .apart with
    | .ok _ => none
    | .error fault => some fault
  else some .unprintable

/-- Why a text with a fault is not YAML. -/
def Fault.reason : Fault → String
  | unprintable => "special characters are not allowed"
  | tab => "found a tab that cannot start any token"
  | farColon => "could not find the expected colon"

/-- Whether characters are blank in YAML. -/
def isBlank (text : List Char) : Bool :=
  text.all fun c => c = ' ' || c = '\n' || c = '\r'

/-- Whether characters are opening brackets, at least one, and blanks. -/
def onlyOpens (text : List Char) : Bool :=
  !isBlank text && text.all fun c => c = '[' || c = '\x7b' || c = ' ' || c = '\n'

/-- Whether characters hold a line break that JSON does not know. -/
def hasOtherBreak (text : List Char) : Bool :=
  text.any fun c => c.toNat = 0x85 || c.toNat = 0x2028 || c.toNat = 0x2029

/-- Whether characters hold an escape that can be one for a half of a surrogate pair. -/
def hasHalf : List Char → Bool
  | '\\' :: 'u' :: d :: rest => d = 'd' || d = 'D' || hasHalf rest
  | '\\' :: _ :: rest => hasHalf rest
  | _ :: rest => hasHalf rest
  | [] => false

/-- The value of a JSON text in YAML. -/
def readJson (text : String) : Except YamlFault Json :=
  match Json.read none text with
  | .ok value =>
    match value.longInteger? digitLimit with
    | some digits => .error (.value (longIntegerReason digits))
    | none => .ok value
  | .error _ => .error .foreign

/-- The value of a text in YAML, in the part that is read. -/
def read (text : String) : Except YamlFault Json :=
  match fault? text with
  | some fault => .error (.malformed fault.reason)
  | none =>
    if isBlank text.toList then .ok .null
    else if onlyOpens text.toList then .error (.malformed "expected the end of the collection")
    else if hasOtherBreak text.toList || hasHalf text.toList then .error .foreign
    else readJson text

/-- Readers with this one for YAML. -/
def readers : Readers where
  yaml := read
  jsonReason _ := "the text is not JSON"

end Flow
end AmbientDecl
