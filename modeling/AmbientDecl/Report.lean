/- # The report of a run

What a run found, as an object: the fingerprint of its configuration, the diagnostics in their
order, how many each code has, and how many members each class has with those it inherits.
-/

import AmbientDecl.Json.Basic
import AmbientDecl.Model.Inheritance

namespace AmbientDecl
namespace Report

/-- The version of the form of a report. -/
def schemaVersion : Int := 1

/-- A diagnostic as an object. -/
def ofDiagnostic (d : Diagnostic) : Json :=
  .obj [("code", .str d.code), ("message", .str d.message), ("subject", .str d.subject)]

/-- A table of counts as an object. -/
def ofCounts (counts : List (String × Nat)) : Json :=
  .obj (counts.map fun (key, count) => (key, .int count))

/-- Counts the members of a class with those it inherits. -/
def countMembers (counts : List (String × Nat)) (id : ClassId) : Build (List (String × Nat)) := do
  let members ← Build.effectiveMembers id
  return Entries.put ((← get).fullName id) members.length counts

/-- The report of a run with a configuration of the given fingerprint. -/
def build (fingerprint : String) : Build Json := do
  let m ← get
  let memberCounts ← m.classIds.foldlM countMembers []
  return .obj [
    ("meta", .obj [
      ("config_hash", .str fingerprint),
      ("schema_version", .int schemaVersion),
      ("total_classes", .int m.classes.length),
      ("total_diagnostics", .int m.diagnostics.length)]),
    ("diagnostics", .arr (m.diagnostics.map ofDiagnostic)),
    ("stats", .obj [
      ("code_counts", ofCounts (Diagnostic.counts m.diagnostics)),
      ("member_counts", ofCounts memberCounts)])]

end Report
end AmbientDecl
