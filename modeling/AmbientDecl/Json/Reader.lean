/- # Reading JSON texts

A text is cut into tokens, and the tokens drive a machine with a stack of open brackets.  Both
passes are recursions over their input.  Refused are control characters inside quotes and anything
after the value.  When a key comes twice in an object, the last value stands at the place of the
first.

Some JSON texts hold a value that is none of `Json`: a number with a fraction or a power of ten,
`NaN`, `Infinity` and `-Infinity`, and a text with one half of a surrogate pair alone.  Such a value
is **foreign**.  Another value stands in for it while the rest of the text is read, so a text that
is no JSON is refused for that, and not for what is foreign in it.

A limit may be set on the digits of an integer.  An integer with more of them is a fault at its
place, so the first fault of a text is told: a fault of syntax after a long integer does not
matter, nor does it help that its key comes again.
-/

import AmbientDecl.Json.Basic

namespace AmbientDecl
namespace Json

/-- Why a text is refused. -/
inductive TextFault where
  /-- The text is not JSON. -/
  | malformed
  /-- An integer has this number of digits, more than the limit. -/
  | longInteger (digits : Nat)
  /-- The text is JSON, but it holds a foreign value. -/
  | foreign
  deriving DecidableEq, Inhabited

/-- A lexical element of a JSON text. -/
inductive Token where
  | openList
  | closeList
  | openObject
  | closeObject
  | comma
  | colon
  | value (v : Json)
  /-- A foreign value, with the value that stands in for it. -/
  | foreign (standIn : Json)
  /-- What cannot be an element; where a value may stand, its fault is that of the text. -/
  | fault (f : TextFault)
  deriving Inhabited

namespace Token

/-- What the characters since the last token are. -/
inductive Mode where
  /-- Nothing yet. -/
  | between
  /-- An unquoted word, read backwards. -/
  | word (read : List Char)
  /-- The inside of quotes, read backwards. -/
  | text (read : List Char)
  /-- The same, after a backslash. -/
  | escape (read : List Char)
  /-- The same, inside a four-digit escape; `high` is the first half of a surrogate pair. -/
  | unit (read : List Char) (high : Option Nat) (digits value : Nat)
  /-- The same, where the second half of a surrogate pair must follow. -/
  | pair (read : List Char) (high : Nat)
  /-- The same, after the backslash of the second half. -/
  | pairEscape (read : List Char) (high : Nat)
  /-- The inside of quotes after a half of a surrogate pair that is alone. -/
  | loose
  /-- The same, after a backslash. -/
  | looseEscape
  /-- The same, inside a four-digit escape. -/
  | looseUnit (digits : Nat)

/-- The four blank characters of JSON. -/
def isSpace (c : Char) : Bool :=
  c = ' ' || c = '\t' || c = '\n' || c = '\r'

/-- The token of a character that is one by itself. -/
def ofMark? (c : Char) : Option Token :=
  if c = '[' then some openList
  else if c = ']' then some closeList
  else if c = '\x7b' then some openObject
  else if c = '\x7d' then some closeObject
  else if c = ',' then some comma
  else if c = ':' then some colon
  else none

/-- The number that decimal digits stand for; a number has no leading zero. -/
def number? (digits : List Char) : Option Nat :=
  if digits.isEmpty || !digits.all Char.isDigit || (digits.length > 1 && digits.head? == some '0')
  then none
  else some (digits.foldl (fun n c => 10 * n + (c.toNat - 48)) 0)

/-- Whether a power of ten stands at the start: a digit with or without a sign before it. -/
def startsPower : List Char → Bool
  | [] => false
  | [c] => c.isDigit
  | c :: d :: _ => c.isDigit || ((c = '+' || c = '-') && d.isDigit)

/-- Whether a number goes on after its integer, as a fraction or with a power of ten. -/
def goesOn : List Char → Bool
  | [] => false
  | '.' :: cs => cs.head?.any Char.isDigit
  | c :: cs => (c = 'e' || c = 'E') && startsPower cs

/-- The fault of the integer that unsigned characters start with, if it has more digits than the
limit. -/
def longInteger? (limit? : Option Nat) (cs : List Char) : Option TextFault :=
  let digits := cs.takeWhile Char.isDigit
  if limit?.any (· < digits.length) && digits.head? != some '0' &&
      !goesOn (cs.dropWhile Char.isDigit)
  then some (.longInteger digits.length)
  else none

/-- What follows the fraction that stands at the start, if one does. -/
def afterFraction : List Char → List Char
  | '.' :: cs => cs.dropWhile Char.isDigit
  | cs => cs

/-- Whether characters are decimal digits with or without a sign before them. -/
def isExponent : List Char → Bool
  | '+' :: cs | '-' :: cs => !cs.isEmpty && cs.all Char.isDigit
  | cs => !cs.isEmpty && cs.all Char.isDigit

/-- Whether characters are nothing or a power of ten. -/
def isPower : List Char → Bool
  | [] => true
  | c :: cs => (c = 'e' || c = 'E') && isExponent cs

/-- Whether unsigned characters are a number with a fraction, a power of ten or both. -/
def isReal (cs : List Char) : Bool :=
  let more := cs.dropWhile Char.isDigit
  (number? (cs.takeWhile Char.isDigit)).isSome && goesOn more && isPower (afterFraction more)

/-- The token of unsigned characters, where `sign` is put before their integer. -/
def ofUnsigned (limit? : Option Nat) (sign : Nat → Int) (cs : List Char) : Token :=
  match longInteger? limit? cs with
  | some f => fault f
  | none =>
    match number? cs with
    | some n => value (int (sign n))
    | none => if isReal cs || cs = "Infinity".toList then foreign null else fault .malformed

/-- The token of an unquoted word. -/
def ofWord (limit? : Option Nat) (word : List Char) : Token :=
  if word = "null".toList then value null
  else if word = "true".toList then value (bool true)
  else if word = "false".toList then value (bool false)
  else if word = "NaN".toList then foreign null
  else
    match word with
    | '-' :: cs => ofUnsigned limit? (fun n => -n) cs
    | cs => ofUnsigned limit? (fun n => n) cs

/-- The character of a two-character escape. -/
def ofEscape? (c : Char) : Option Char :=
  if c = '\x22' || c = '\\' || c = '/' then some c
  else if c = 'b' then some '\x08'
  else if c = 'f' then some '\x0c'
  else if c = 'n' then some '\n'
  else if c = 'r' then some '\r'
  else if c = 't' then some '\t'
  else none

/-- The value of a hexadecimal digit. -/
def hexValue? (c : Char) : Option Nat :=
  let n := c.toNat
  if 48 ≤ n && n ≤ 57 then some (n - 48)
  else if 97 ≤ n && n ≤ 102 then some (n - 87)
  else if 65 ≤ n && n ≤ 70 then some (n - 55)
  else none

/-- The mode after a whole four-digit escape. -/
def afterUnit (read : List Char) (high : Option Nat) (unit : Nat) : Mode :=
  let isHigh := 0xD800 ≤ unit && unit ≤ 0xDBFF
  let isLow := 0xDC00 ≤ unit && unit ≤ 0xDFFF
  match high with
  | some h =>
    if isLow then .text (Char.ofNat (0x10000 + (h - 0xD800) * 0x400 + (unit - 0xDC00)) :: read)
    else .loose
  | none =>
    if isHigh then .pair read unit
    else if isLow then .loose
    else .text (Char.ofNat unit :: read)

/-- One character inside of quotes after a half that is alone. -/
def stepLoose (c : Char) : Option (Mode × List Token) :=
  if c = '\x22' then some (.between, [foreign (str "")])
  else if c = '\\' then some (.looseEscape, [])
  else if c.toNat < 0x20 then none
  else some (.loose, [])

/-- The same, after a backslash. -/
def stepLooseEscape (c : Char) : Option (Mode × List Token) :=
  if c = 'u' then some (.looseUnit 0, [])
  else (ofEscape? c).map fun _ => (.loose, [])

/-- One character: the next mode and the tokens that end with it, the last one first. -/
def step (limit? : Option Nat) : Mode → Char → Option (Mode × List Token)
  | .between, c =>
    if isSpace c then some (.between, [])
    else if c = '\x22' then some (.text [], [])
    else match ofMark? c with
      | some token => some (.between, [token])
      | none => some (.word [c], [])
  | .word read, c =>
    if isSpace c then some (.between, [ofWord limit? read.reverse])
    else match ofMark? c with
      | some token => some (.between, [token, ofWord limit? read.reverse])
      | none => some (.word (c :: read), [])
  | .text read, c =>
    if c = '\x22' then some (.between, [value (str (String.ofList read.reverse))])
    else if c = '\\' then some (.escape read, [])
    else if c.toNat < 0x20 then none
    else some (.text (c :: read), [])
  | .escape read, c =>
    if c = 'u' then some (.unit read none 0 0, [])
    else (ofEscape? c).map fun d => (.text (d :: read), [])
  | .unit read high digits n, c => do
    let unit := 16 * n + (← hexValue? c)
    return (if digits < 3 then .unit read high (digits + 1) unit else afterUnit read high unit, [])
  | .pair read high, c => if c = '\\' then some (.pairEscape read high, []) else stepLoose c
  | .pairEscape read high, c =>
    if c = 'u' then some (.unit read (some high) 0 0, []) else stepLooseEscape c
  | .loose, c => stepLoose c
  | .looseEscape, c => stepLooseEscape c
  | .looseUnit digits, c =>
    (hexValue? c).map fun _ => (if digits < 3 then .looseUnit (digits + 1) else .loose, [])

/-- The tokens of a text up to its first fault outside of words; `done` holds those already read,
backwards. -/
def scan (limit? : Option Nat) (mode : Mode) (done : List Token) : List Char → List Token
  | [] =>
    match mode with
    | .between => done.reverse
    | .word read => (ofWord limit? read.reverse :: done).reverse
    | _ => (fault .malformed :: done).reverse
  | c :: cs =>
    match step limit? mode c with
    | some (next, tokens) => scan limit? next (tokens ++ done) cs
    | none => (fault .malformed :: done).reverse

/-- Whether a token is a foreign value. -/
def isForeign : Token → Bool
  | foreign _ => true
  | _ => false

/-- The token with what stands in for it. -/
def standIn : Token → Token
  | foreign v => value v
  | token => token

end Token

/-- A bracket that is still open. -/
inductive Frame where
  /-- A list with the elements read so far, backwards. -/
  | list (items : List Json)
  /-- An object with the members read so far, backwards, and the key of the present member. -/
  | object (members : List (String × Json)) (key : String)

/-- What the next token may be. -/
inductive Expecting where
  /-- A value. -/
  | value
  /-- The first element of a list or its end. -/
  | itemOrEnd
  /-- A key, in an object with these members. -/
  | key (members : List (String × Json))
  /-- The first key of an object or its end. -/
  | keyOrEnd
  /-- The colon after a key. -/
  | colon
  /-- The end of this value's bracket or the comma after it. -/
  | afterValue (value : Json)

/-- The members in the order of their keys' first coming, each with its last value. -/
def ofMembers (members : List (String × Json)) : Json :=
  obj (Entries.putAll [] members)

/-- The value that the tokens spell. -/
def build : List Frame → Expecting → List Token → Except TextFault Json
  | [], .afterValue v, [] => .ok v
  | _, _, [] => .error .malformed
  | frames, .value, token :: rest =>
    match token with
    | .value v => build frames (.afterValue v) rest
    | .openList => build (.list [] :: frames) .itemOrEnd rest
    | .openObject => build (.object [] "" :: frames) .keyOrEnd rest
    | .fault f => .error f
    | _ => .error .malformed
  | frames, .itemOrEnd, token :: rest =>
    match token, frames with
    | .closeList, .list items :: outer => build outer (.afterValue (arr items.reverse)) rest
    | .value v, _ => build frames (.afterValue v) rest
    | .openList, _ => build (.list [] :: frames) .itemOrEnd rest
    | .openObject, _ => build (.object [] "" :: frames) .keyOrEnd rest
    | .fault f, _ => .error f
    | _, _ => .error .malformed
  | frames, .keyOrEnd, token :: rest =>
    match token, frames with
    | .closeObject, .object members _ :: outer =>
      build outer (.afterValue (ofMembers members.reverse)) rest
    | .value (.str key), .object members _ :: outer =>
      build (.object members key :: outer) .colon rest
    | _, _ => .error .malformed
  | frames, .key members, token :: rest =>
    match token with
    | .value (.str key) => build (.object members key :: frames) .colon rest
    | _ => .error .malformed
  | frames, .colon, token :: rest =>
    match token with
    | .colon => build frames .value rest
    | _ => .error .malformed
  | frames, .afterValue v, token :: rest =>
    match token, frames with
    | .comma, .list items :: outer => build (.list (v :: items) :: outer) .value rest
    | .closeList, .list items :: outer =>
      build outer (.afterValue (arr (v :: items).reverse)) rest
    | .comma, .object members key :: outer => build outer (.key ((key, v) :: members)) rest
    | .closeObject, .object members key :: outer =>
      build outer (.afterValue (ofMembers ((key, v) :: members).reverse)) rest
    | _, _ => .error .malformed

/-- The value that a JSON text spells, with a limit on the digits of an integer. -/
def read (limit? : Option Nat) (text : String) : Except TextFault Json :=
  let tokens := Token.scan limit? .between [] text.toList
  match build [] .value (tokens.map Token.standIn) with
  | .error fault => .error fault
  | .ok value => if tokens.any Token.isForeign then .error .foreign else .ok value

/-- The value that a JSON text spells. -/
def read? (text : String) : Option Json :=
  (read none text).toOption

end Json
end AmbientDecl
