import CanonicalSchema.Checked.Record
import CanonicalSchema.Checked.Scalar

/-!
What can be chosen about building schemas and converting values.
-/

namespace CanonicalSchema

open Checked

structure Options where
  strictIndex : Bool
  narrowIntegralNumbers : Bool
deriving DecidableEq

namespace Options

def standard : Options := ⟨false, false⟩

def title : String := "SchemaConfig"

def labels : List Text := ["strict_index", "narrow_integral_numbers"]

def check : Json → Checked Options :=
  record title fun ms =>
    mk <$> defaulted ms "strict_index" false flag
      <*> defaulted ms "narrow_integral_numbers" false flag
      <* onlyKnown labels ms

def toJson (o : Options) : Json := .obj [
  ("strict_index", .bool o.strictIndex),
  ("narrow_integral_numbers", .bool o.narrowIntegralNumbers)]

end Options

end CanonicalSchema
