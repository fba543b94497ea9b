/- # Quoted texts

How a text stands inside a message: between single quotes, or between double quotes when it
holds a single quote and no double one.  A backslash and the quote in use are escaped by a
backslash; the tab, the line feed and the carriage return are written `\t`, `\n`, `\r`; any
other character that is not printable is written by its code point as `\xNN`, `\uNNNN` or
`\UNNNNNNNN`, the shortest of the three that holds it.
-/

import AmbientDecl.Text.Printable

namespace AmbientDecl
namespace Text

/-- The hexadecimal digit of a number below sixteen, in lower case. -/
def hexDigit (n : Nat) : Char :=
  if n < 10 then Char.ofNat (48 + n) else Char.ofNat (87 + n)

/-- The last `width` hexadecimal digits of a number. -/
def hexDigits : (width : Nat) → Nat → List Char
  | 0, _ => []
  | width + 1, n => hexDigits width (n / 16) ++ [hexDigit (n % 16)]

/-- The escape of a character by its code point. -/
def codePointEscape (c : Char) : List Char :=
  let n := c.toNat
  if n ≤ 0xFF then '\\' :: 'x' :: hexDigits 2 n
  else if n ≤ 0xFFFF then '\\' :: 'u' :: hexDigits 4 n
  else '\\' :: 'U' :: hexDigits 8 n

/-- How one character is written between quotes. -/
def quotedChar (quote c : Char) : List Char :=
  if c = quote ∨ c = '\\' then ['\\', c]
  else if c = '\t' then ['\\', 't']
  else if c = '\n' then ['\\', 'n']
  else if c = '\r' then ['\\', 'r']
  else if isPrintable c then [c]
  else codePointEscape c

/-- Double quotes are used only around a text with a single quote and no double one. -/
def quoteMark (cs : List Char) : Char :=
  if '\x27' ∈ cs ∧ '\x22' ∉ cs then '\x22' else '\x27'

/-- The text between quotes. -/
def quoted (text : String) : String :=
  let cs := text.toList
  let quote := quoteMark cs
  String.ofList (quote :: cs.flatMap (quotedChar quote) ++ [quote])

end Text
end AmbientDecl
