/-!
Faults are handled by class: a clause names the classes it handles, and all else goes on to the
caller. One class stands for a stack that is used up, which values within values do level by level.
-/

namespace CanonicalSchema

inductive FaultClass where
  | type
  | value
  | validation
  | format
  | decoding
  | encoding
  | recursion
deriving DecidableEq

namespace FaultClass

/-- The classes that a fault belongs to, its own first. -/
def ancestors : FaultClass → List FaultClass
  | type => [type]
  | value => [value]
  | validation => [validation, value]
  | format => [format, value]
  | decoding => [decoding, value]
  | encoding => [encoding, value]
  | recursion => [recursion]

def isHandledBy (c : FaultClass) (clause : List FaultClass) : Bool :=
  c.ancestors.any fun a => clause.contains a

end FaultClass

/-- The levels that the stack has room for. Those of a snapshot always fit. -/
structure Depth where
  limit : Nat
  five_le_limit : 5 ≤ limit

theorem Depth.limit_pos (depth : Depth) : 0 < depth.limit :=
  Nat.lt_of_lt_of_le (by decide) depth.five_le_limit

def Depth.standard : Depth := ⟨990, by decide⟩

end CanonicalSchema
