import CanonicalSchema.Binary64.Written
import CanonicalSchema.Json.Basic

/-!
The texts of the values that are neither strings nor containers.
-/

namespace CanonicalSchema.Json

def writeBool (b : Bool) : List Char := (if b then "true" else "false").toList

def writeFloat (x : Binary64) : List Char :=
  if x.isNaN then "NaN".toList
  else if x.isFinite then x.write
  else if x.isNegative then "-Infinity".toList
  else "Infinity".toList

end CanonicalSchema.Json
