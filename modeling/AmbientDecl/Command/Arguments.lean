/- # Command lines

A grammar lists options and positional arguments; a command line is read by it in two steps.

First every word is classed.  A word that starts with a dash and is longer than the dash is an
option if it is the name of one, the name of one followed by `=` and a text, an unambiguous
abbreviation of a long name, or a short name with more letters after it; other words of this
shape are unknown options, unless they look like a negative number or hold a blank.  After the
word `--` no word is an option.

Then the options and the runs of other words between them are used up in order.

* An option with a value takes the text attached to it or else the word after it, which must be
  no option and not `--`.  The text `--` attached to it stands for no words at all.
* The letters attached to a short switch, with or without `=`, are further short options.
* A run of other words goes to the positional arguments that are still open, as many as the run
  can serve.  An argument that may be left out is closed by the first run that reaches it, even
  when nothing is left for it.

A line is refused that has an ambiguous or unknown option, a text attached to a switch that stands
for no options, two switches that exclude each other, a word for no argument, or no word for an
argument that needs one.  A request for help ends the reading at once.
-/

import AmbientDecl.Entries
import AmbientDecl.Text.Digit

namespace AmbientDecl
namespace Command

/-- What an option does. -/
inductive OptionKind where
  | help
  | switch
  | value
  deriving DecidableEq

/-- An option of a command. -/
structure OptionSpec where
  /-- The names, each with its dashes; the first one stands for the option. -/
  names : List String
  kind : OptionKind
  /-- Whether the option excludes the other options that are marked so. -/
  isExclusive : Bool

/-- The name that stands for an option. -/
def OptionSpec.key (spec : OptionSpec) : String := spec.names.headD ""

/-- A positional argument. -/
structure Positional where
  key : String
  isRequired : Bool
  deriving DecidableEq

/-- What a command takes. -/
structure Grammar where
  options : List OptionSpec
  positionals : List Positional

/-- A value that is given to an option or an argument. -/
inductive Value where
  | word (text : String)
  /-- The value without words. -/
  | wordless
  deriving DecidableEq

namespace Value

/-- The value for a text that is attached to an option. -/
def ofAttached (text : String) : Value :=
  if text = "--" then wordless else word text

/-- The text of a value. -/
def text? : Value → Option String
  | word text => some text
  | wordless => none

/-- How a value is shown: the one without words as an empty list. -/
def display : Value → String
  | word text => text
  | wordless => "[]"

end Value

/-- What a command line gives: the switches, and a value for each option or argument. -/
structure Arguments where
  switches : List String
  values : List (String × Value)
  deriving DecidableEq, Inhabited

namespace Arguments

/-- Whether a switch is given. -/
def has (arguments : Arguments) (key : String) : Bool := arguments.switches.contains key

/-- The last value given for an option or an argument. -/
def value? (arguments : Arguments) (key : String) : Option Value :=
  Entries.get? key arguments.values

/-- The text of the last value given for an option or an argument. -/
def text? (arguments : Arguments) (key : String) : Option String :=
  (arguments.value? key).bind Value.text?

end Arguments

/-- The outcome of reading a command line. -/
inductive Reading where
  | accepted (arguments : Arguments)
  | help
  | refused
  deriving DecidableEq

/-- The use of an option in a word; the option is `none` where the grammar has none. -/
structure OptionUse where
  spec? : Option OptionSpec
  name : String
  /-- The text attached to the name: after `=`, or at once after a short name. -/
  attached? : Option (List Char)

/-- A word that is no option. -/
inductive Operand where
  | text (text : String)
  /-- The first `--`. -/
  | dashes
  deriving DecidableEq

/-- A classed word. -/
inductive Word where
  | option (use : OptionUse)
  | operand (operand : Operand)

namespace Grammar

/-- The names of all options with their options. -/
def names (g : Grammar) : List (String × OptionSpec) :=
  g.options.flatMap fun spec => spec.names.map fun name => (name, spec)

/-- Whether a name has two dashes. -/
def isLong (name : String) : Bool :=
  ['-', '-'].isPrefixOf name.toList

/-- A word cut at its first `=`. -/
def cutAtEquals (word : List Char) : List Char × Option (List Char) :=
  match word.dropWhile (· ≠ '=') with
  | [] => (word, none)
  | _ :: rest => (word.takeWhile (· ≠ '='), some rest)

/-- The options that a word with two dashes may abbreviate. -/
def longMatches (g : Grammar) (word : List Char) : List OptionUse :=
  let (lead, rest?) := cutAtEquals word
  g.names.filterMap fun (name, spec) =>
    if lead.isPrefixOf name.toList then some ⟨some spec, name, rest?⟩ else none

/-- The options that a word with one dash may stand for. -/
def shortMatches (g : Grammar) (word : List Char) : List OptionUse :=
  g.names.filterMap fun (name, spec) =>
    if name.toList = word.take 2 then some ⟨some spec, name, some (word.drop 2)⟩
    else if word.isPrefixOf name.toList then some ⟨some spec, name, none⟩
    else none

/-- Whether a word is a negative number: digits, perhaps with a point before the last ones. -/
def isNegativeNumber (word : List Char) : Bool :=
  match word with
  | '-' :: rest =>
    let digits := if rest.getLast? = some '\n' then rest.dropLast else rest
    match digits.dropWhile Text.isDecimal with
    | [] => !digits.isEmpty
    | '.' :: fraction => !fraction.isEmpty && fraction.all Text.isDecimal
    | _ => false
  | _ => false

/-- The class of a word before any `--`, or `none` for an ambiguous one. -/
def classify? (g : Grammar) (word : String) : Option Word :=
  let cs := word.toList
  if cs.head? ≠ some '-' then some (.operand (.text word))
  else
    match Entries.get? word g.names with
    | some spec => some (.option ⟨some spec, word, none⟩)
    | none =>
      if cs.length = 1 then some (.operand (.text word))
      else
        let (lead, rest?) := cutAtEquals cs
        match rest?.bind fun _ => Entries.get? (String.ofList lead) g.names with
        | some spec => some (.option ⟨some spec, String.ofList lead, rest?⟩)
        | none =>
          match if isLong word then g.longMatches cs else g.shortMatches cs with
          | [use] => some (.option use)
          | _ :: _ :: _ => none
          | [] =>
            if isNegativeNumber cs || cs.contains ' ' then some (.operand (.text word))
            else some (.option ⟨none, word, none⟩)

/-- The classes of the words of a line, or `none` if one is ambiguous. -/
def classifyAll? (g : Grammar) : List String → Option (List Word)
  | [] => some []
  | word :: rest =>
    if word = "--" then
      some (.operand .dashes :: rest.map fun text => .operand (.text text))
    else do
      return (← g.classify? word) :: (← g.classifyAll? rest)

/-- A line as the operands before the first option, and each option with the operands after
it. -/
def group : List Word → List Operand × List (OptionUse × List Operand)
  | [] => ([], [])
  | .operand operand :: rest =>
    let (operands, groups) := group rest
    (operand :: operands, groups)
  | .option use :: rest =>
    let (operands, groups) := group rest
    ([], (use, operands) :: groups)

/-- Why the reading of a line ends early. -/
inductive Stop where
  | help
  | refused

/-- What has been read of a line. -/
structure State where
  arguments : Arguments
  /-- The positional arguments that are still open. -/
  isOpen : List Positional
  /-- Whether a word was left over. -/
  hasExtras : Bool

/-- Sets a value in place of an earlier one. -/
def State.setValue (state : State) (key : String) (value : Value) : State :=
  { state with arguments :=
      { state.arguments with values := Entries.put key value state.arguments.values } }

/-- Acts on an option; a switch is refused together with one that it excludes. -/
def useOption (g : Grammar) (state : State) (spec : OptionSpec) (value : Value) :
    Except Stop State :=
  match spec.kind with
  | .help => .error .help
  | .value => .ok (state.setValue spec.key value)
  | .switch =>
    let excluded := g.options.any fun other =>
      spec.isExclusive && other.isExclusive && other.key != spec.key &&
        state.arguments.has other.key
    if excluded then .error .refused
    else
      .ok { state with arguments :=
        { state.arguments with switches := state.arguments.switches ++ [spec.key] } }

/-- A value of an option, attached to it or given by the operands after it; the rest of these. -/
def takeValue (attached? : Option (List Char)) (operands : List Operand) :
    Except Stop (Value × List Operand) :=
  match attached?, operands with
  | some text, _ => .ok (.ofAttached (String.ofList text), operands)
  | none, .text text :: rest => .ok (.word text, rest)
  | none, _ => .error .refused

/-- The options that the letters attached to a short switch stand for, each with what is attached
to it.  An option with a value takes all letters after it. -/
def readLetters (g : Grammar) : List Char →
    Except Stop (List (OptionSpec × Option (List Char)))
  | [] => .ok []
  | c :: cs =>
    match Entries.get? (String.ofList ['-', c]) g.names with
    | none => .error .refused
    | some spec =>
      if spec.kind = .value then .ok [(spec, if cs = [] then none else some cs)]
      else do return (spec, none) :: (← g.readLetters cs)

/-- The options that a word uses, each with what is attached to it. -/
def expand (g : Grammar) (spec : OptionSpec) (name : String) (attached? : Option (List Char)) :
    Except Stop (List (OptionSpec × Option (List Char))) :=
  if spec.kind = .value then .ok [(spec, attached?)]
  else
    match attached? with
    | none => .ok [(spec, none)]
    | some letters =>
      if isLong name || letters = [] then .error .refused
      else do return (spec, none) :: (← g.readLetters letters)

/-- Finds the values of the options of one word among the operands after it. -/
def supply : List (OptionSpec × Option (List Char)) → List Operand →
    Except Stop (List (OptionSpec × Value) × List Operand)
  | [], operands => .ok ([], operands)
  | (spec, attached?) :: rest, operands => do
    let (value, operands) ←
      if spec.kind = .value then takeValue attached? operands else .ok (.wordless, operands)
    let (uses, operands) ← supply rest operands
    return ((spec, value) :: uses, operands)

/-- Uses the options of a word; the operands after it that are left. -/
def useWord (g : Grammar) (state : State) (use : OptionUse) (operands : List Operand) :
    Except Stop (State × List Operand) :=
  match use.spec? with
  | none => .ok ({ state with hasExtras := true }, operands)
  | some spec => do
    let uses ← g.expand spec use.name use.attached?
    let (uses, operands) ← supply uses operands
    let state ← uses.foldlM (fun state (spec, value) => g.useOption state spec value) state
    return (state, operands)

/-- The word of an operand. -/
def Operand.word : Operand → String
  | .text text => text
  | .dashes => "--"

/-- The operands for one positional argument and those after it, or `none` if it cannot be
served. -/
def serve? (positional : Positional) (operands : List Operand) :
    Option (List Operand × List Operand) :=
  let before := operands.takeWhile (· = .dashes)
  match operands.dropWhile (· = .dashes) with
  | .text text :: rest =>
    some (before ++ .text text :: rest.takeWhile (· = .dashes), rest.dropWhile (· = .dashes))
  | _ => if positional.isRequired then none else some (before, [])

/-- The value of a positional argument: its operands without the first `--`. -/
def valueOf? (operands : List Operand) : Option Value :=
  ((operands.map Operand.word).erase "--").head?.map .word

/-- Serves the open arguments by a run of operands. -/
def serveAll (arguments : Arguments) : List Positional → List Operand → State
  | [], operands => ⟨arguments, [], operands ≠ []⟩
  | positional :: rest, operands =>
    match serve? positional operands with
    | none => ⟨arguments, positional :: rest, operands ≠ []⟩
    | some (served, operands) =>
      match valueOf? served with
      | some value =>
        serveAll { arguments with values := Entries.put positional.key value arguments.values }
          rest operands
      | none => serveAll arguments rest operands

/-- Uses up a run of operands; an empty run closes an argument only at the end of the line. -/
def useOperands (state : State) (operands : List Operand) (isLast : Bool) : State :=
  if operands = [] ∧ !isLast then state
  else
    let served := serveAll state.arguments state.isOpen operands
    { served with hasExtras := state.hasExtras || served.hasExtras }

/-- Uses up the options of a line, each with the operands after it. -/
def useGroups (g : Grammar) (state : State) :
    List (OptionUse × List Operand) → Except Stop State
  | [] => .ok state
  | (use, operands) :: rest => do
    let (state, operands) ← g.useWord state use operands
    g.useGroups (useOperands state operands rest.isEmpty) rest

/-- The outcome at the end of a line. -/
def conclude (state : State) : Reading :=
  if state.hasExtras || state.isOpen.any (·.isRequired) then .refused
  else .accepted state.arguments

/-- Reads a command line. -/
def read (g : Grammar) (line : List String) : Reading :=
  match g.classifyAll? line with
  | none => .refused
  | some words =>
    let (operands, groups) := group words
    let start := useOperands ⟨⟨[], []⟩, g.positionals, false⟩ operands groups.isEmpty
    match g.useGroups start groups with
    | .ok state => conclude state
    | .error .help => .help
    | .error .refused => .refused

end Grammar
end Command
end AmbientDecl
