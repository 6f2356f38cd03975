import CanonicalSchema.Json.Reader
import CanonicalSchema.Text.Utf8

/-!
JSON from the bytes of a file.
-/

namespace CanonicalSchema.Json

inductive DocumentFault where
  | encoding (flaw : Utf8.Flaw)
  | content (failure : ReadFailure)
deriving DecidableEq

def DocumentFault.message : DocumentFault → String
  | encoding flaw => flaw.message
  | content failure => failure.message

def DocumentFault.faultClass : DocumentFault → FaultClass
  | encoding _ => .decoding
  | content failure => failure.faultClass

def ofBytes (depth : Depth) (bytes : List UInt8) : Except DocumentFault Json :=
  match Utf8.decode bytes with
  | .error flaw => .error (.encoding flaw)
  | .ok cs => (read depth (Utf8.unifyNewlines cs)).mapError .content

end CanonicalSchema.Json
