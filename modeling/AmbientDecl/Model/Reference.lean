/- # References to names

How a class refers to a name.  Inside the class named `base` the enclosing namespaces are open, so
what a name shares with them from the start can be left out.

1. A capitalised name that is no built-in type may be the local name of a class nearby.  The
   longest leading run of the segments of `base` under which a class with that name is registered
   gives the full name of the class.
2. A name with a fixed reference is written as that.
3. The longest leading run of the segments of `base` that starts the name is left out with its
   dot.
4. A name is not shortened to that of a built-in type.

Only the tables of the configuration that come up on this way can be at fault.
-/

import AmbientDecl.Model.Registry
import AmbientDecl.Text.Pieces
import AmbientDecl.TypeExpr.Lowered

namespace AmbientDecl
namespace Model

/-- Whether a name starts with a capital letter of ASCII. -/
def isCapitalised (name : String) : Bool :=
  match name.toList with
  | c :: _ => c.isUpper
  | [] => false

/-- The leading runs of the segments of a name, the longest first. -/
def surroundings (base : String) : List (List String) :=
  if base = "" then [] else Dotted.leadingRuns (Dotted.segments base)

/-- The class nearby that goes by a local name. -/
def nearby? (m : Model) (name base : String) : Except ShapeFault (Option ClassId) :=
  (surroundings base).findSomeM? fun run => m.find? (Dotted.join (run ++ [name]))

/-- The full name that a name stands for inside `base`. -/
def fullNameOf (m : Model) (name base : String) : Except ShapeFault String := do
  if !m.settings.builtInTypes.contains name && isCapitalised name then
    match ← m.nearby? name base with
    | some id => return m.fullName id
    | none => return name
  else return name

/-- What follows a run of segments and a dot in a name. -/
def afterRun? (name : String) (run : List String) : Option String :=
  (Text.afterLead? (Dotted.join run ++ ".").toList name.toList).map String.ofList

/-- The name without the longest leading run of the segments of `base` that starts it. -/
def shortened (name base : String) : String :=
  ((surroundings base).findSome? (afterRun? name)).getD name

/-- A name shortened inside `base`, but not to that of a built-in type. -/
def localName (settings : Settings) (name base : String) : String :=
  let short := shortened name base
  if settings.builtInTypes.contains short then name else short

/-- The reference to a name inside the class named `base`. -/
def reference (m : Model) (name base : String) : Except ShapeFault Json := do
  let fullName ← m.fullNameOf name base
  match ← Settings.fixedReference? m.settings.fixedReferences fullName with
  | some fixed => return fixed
  | none => return .str (localName m.settings fullName base)

/-- The reference to a name inside the class named `base`, or the name itself outside of all
classes. -/
def referenceWithin (m : Model) (base name : String) : Except ShapeFault Json :=
  if base = "" then .ok (.str name) else m.reference name base

/-- How names are written in types inside the class named `base`. -/
def naming (m : Model) (base : String) : TypeExpr.Naming where
  alone name := do Settings.aliasOf m.settings.typeAliases (← m.referenceWithin base name)
  withArguments name := m.referenceWithin base name

end Model
end AmbientDecl
