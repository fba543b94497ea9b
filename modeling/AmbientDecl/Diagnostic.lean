/- # Diagnostics

A diagnostic reports a condition that does not stop a run: a code, a message and the name that
it is about.  Everything that a run reports goes into one log in the order of its coming:
diagnostics as warnings, and remarks for the curious.
-/

import AmbientDecl.Entries

namespace AmbientDecl

/-- A condition that does not stop a run. -/
structure Diagnostic where
  code : String
  message : String
  /-- The name that the diagnostic is about. -/
  subject : String
  deriving DecidableEq, Inhabited

namespace Diagnostic

def duplicateClass : String := "duplicate-class"
def duplicateMember : String := "duplicate-member"
def unknownClass : String := "unknown-class"
def unresolvedExtends : String := "unresolved-extends"
def unresolvedMixin : String := "unresolved-mixin"
def cyclicMixin : String := "cyclic-mixin"
def deprecatedMember : String := "deprecated-member"
def privateOverride : String := "private-override"
def unparseableType : String := "unparseable-type"

/-- The diagnostics with a code. -/
def withCode (code : String) (diagnostics : List Diagnostic) : List Diagnostic :=
  diagnostics.filter fun d => d.code == code

/-- The table of counts with one more of a code. -/
def countOne (counts : List (String × Nat)) (code : String) : List (String × Nat) :=
  Entries.put code ((Entries.get? code counts).getD 0 + 1) counts

/-- How many diagnostics each code has, in the order in which the codes first come. -/
def counts (diagnostics : List Diagnostic) : List (String × Nat) :=
  (diagnostics.map code).foldl countOne []

/-- Inserts a count before the first one with a greater code. -/
def insertByCode (entry : String × Nat) : List (String × Nat) → List (String × Nat)
  | [] => [entry]
  | head :: rest =>
    if entry.1 < head.1 then entry :: head :: rest else head :: insertByCode entry rest

/-- The counts in the order of their codes. -/
def sortedCounts (diagnostics : List Diagnostic) : List (String × Nat) :=
  (counts diagnostics).foldr insertByCode []

end Diagnostic

/-- A line of the log. -/
inductive LogEntry where
  | warning (diagnostic : Diagnostic)
  | info (text : String)
  | debug (text : String)
  deriving DecidableEq

namespace LogEntry

/-- The diagnostic that an entry reports. -/
def diagnostic? : LogEntry → Option Diagnostic
  | warning d => some d
  | _ => none

/-- The diagnostics of a log. -/
def diagnostics (log : List LogEntry) : List Diagnostic :=
  log.filterMap diagnostic?

end LogEntry
end AmbientDecl
