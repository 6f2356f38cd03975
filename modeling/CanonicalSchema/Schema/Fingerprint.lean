import CanonicalSchema.Json.Canonical
import CanonicalSchema.Schema.Basic
import CanonicalSchema.Sha256
import CanonicalSchema.Text.Utf8

/-!
A digest of a schema that does not depend on the order in which its fields were given.
-/

namespace CanonicalSchema.Schema

def payload (s : Schema) : Json := .obj [
  ("name", .str s.name),
  ("target_model_name", .str s.targetName),
  ("fields", .arr (s.sortedFields.map Field.toJson)),
  ("model_index", s.index.toJson)]

/-- Whether there are words for a limit of very many digits is not looked at. -/
def payloadText (s : Schema) : String := s.payload.canonicalText

/-- The digest of the text, also where a limit has no words and there is nothing to digest. -/
def fingerprint (s : Schema) : String :=
  String.ofList ((Sha256.digest (Utf8.encode s.payloadText)).flatMap fun b =>
    Digits.writeHex 2 b.toNat)

end CanonicalSchema.Schema
