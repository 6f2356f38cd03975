import CanonicalSchema.Checked.Basic
import CanonicalSchema.Text.Surrogate
import CanonicalSchema.Value.Literal

/-!
What can be wrong with the material that a schema is built from.
-/

namespace CanonicalSchema

inductive Malformed where
  | notIterable (typeName : String)
  | pairNotSequence (position : Nat)
  | pairLength (position length : Nat)
  | unhashableKey (typeName : String)
  | unsupportedIndex (literal : String)
  | textAsIndexFields (literal : String)
  | rejected (rejection : Rejection)
  | unencodable (message : Unencodable)
  | unwordable (fault : WordingFault)
deriving DecidableEq

namespace Malformed

/-- A rejection is named only; its issues are data. -/
def message : Malformed → String
  | notIterable typeName => "'" ++ typeName ++ "' object is not iterable"
  | pairNotSequence position =>
    "cannot convert dictionary update sequence element #" ++ toString position ++ " to a sequence"
  | pairLength position length =>
    "dictionary update sequence element #" ++ toString position ++ " has length "
      ++ toString length ++ "; 2 is required"
  | unhashableKey typeName => "unhashable type: '" ++ typeName ++ "'"
  | unsupportedIndex literal => "Unsupported index declaration: " ++ literal
  | textAsIndexFields literal =>
    "Index fields must be a sequence of names, got string " ++ literal
  | rejected _ => "ValidationError"
  | unencodable message => message.message
  | unwordable fault => fault.message

def faultClass : Malformed → FaultClass
  | notIterable _ => .type
  | pairNotSequence _ => .type
  | pairLength _ _ => .value
  | unhashableKey _ => .type
  | unsupportedIndex _ => .type
  | textAsIndexFields _ => .type
  | rejected _ => .validation
  | unencodable _ => .encoding
  | unwordable fault => fault.faultClass

end Malformed

end CanonicalSchema
