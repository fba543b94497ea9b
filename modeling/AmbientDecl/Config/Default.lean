/- # The default configuration

The tables that a run starts from.  Their keys are also the keys that a run reads, so a
fingerprint covers these and leaves notes and misspelt keys aside.
-/

import AmbientDecl.Json.Basic

namespace AmbientDecl
namespace Config

/-- A table from texts to texts. -/
def textTable (entries : List (String × String)) : Json :=
  .obj (entries.map fun (key, value) => (key, .str value))

/-- A list of texts. -/
def textList (items : List String) : Json :=
  .arr (items.map .str)

/-- The configuration of a run that is given none. -/
def default : List (String × Json) := [
  -- Paths of namespaces that live under another parent.
  ("namespace_aliases", textTable [("RSVP", "Ember.RSVP")]),
  -- Names with one fixed reference.
  ("relative_name_overrides", textTable [("RSVP.Promise", "Ember.RSVP.Promise")]),
  ("built_in_types", textList ["Function", "String", "Array", "Object"]),
  ("type_aliases", textTable [
    ("Any", "any"),
    ("*", "any"),
    ("Class", "any"),
    ("Mixed", "any"),
    ("Array", "any[]"),
    ("Tuple", "any[]"),
    ("Boolean", "boolean"),
    ("String", "string"),
    ("Number", "number"),
    ("Object", "\x7b\x7d"),
    ("Object?", "\x7b\x7d"),
    ("Hash", "\x7b\x7d"),
    ("Void", "void"),
    ("RSVP.Promise", "RSVP.Promise<any>"),
    ("Promise", "Promise<any>")]),
  ("ignore_prefixes", textList ["Ember.Templates"]),
  ("additional_classes", textList [
    "DOMElement",
    "Registry",
    "Transition",
    "Handlebars.SafeString"]),
  ("class_overrides", .obj [
    ("Ember.RSVP.Promise", .obj [
      ("generics", .str "T"),
      ("implements", textList ["Promise<T>"])])]),
  ("reserved_param_names", textTable [("arguments", "args")]),
  ("export_default", .str "Ember")]

end Config
end AmbientDecl
