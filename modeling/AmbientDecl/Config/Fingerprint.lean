/- # Fingerprint of a configuration

The SHA-256 of the canonical text of a configuration, or of its part under some keys, in
hexadecimal.  It depends on what the configuration holds and not on the order of keys.
-/

import AmbientDecl.Digest.Sha256
import AmbientDecl.Json.Written

namespace AmbientDecl
namespace Config

/-- The members under some of the given keys. -/
def restrict (config : List (String × Json)) (keys : List String) : List (String × Json) :=
  config.filter fun (key, _) => keys.contains key

/-- The text that is digested: the configuration, or its members under the given keys. -/
def canonicalText (config : List (String × Json)) (keys? : Option (List String)) : List Char :=
  match keys? with
  | some keys => Json.canonical (.obj (restrict config keys))
  | none => Json.canonical (.obj config)

/-- A digest in hexadecimal. -/
def hexText (words : List UInt32) : String :=
  String.ofList (words.flatMap fun word => Text.hexDigits 8 word.toNat)

/-- The fingerprint of a configuration. -/
def fingerprint (config : List (String × Json)) (keys? : Option (List String)) : String :=
  hexText (Sha256.digest ((String.ofList (canonicalText config keys?)).toUTF8.toList))

end Config
end AmbientDecl
