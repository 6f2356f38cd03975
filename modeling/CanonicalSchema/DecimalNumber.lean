import CanonicalSchema.Text.Digits

/-!
Decimal numbers. A finite one keeps its exponent, so that many of them have one value; besides
there are the infinities, and what is no number, which may carry a payload.
-/

namespace CanonicalSchema

/-- Zero has a sign as well; a payload of zero is none. -/
inductive DecimalNumber where
  | finite (negative : Bool) (coefficient : Nat) (exponent : Int)
  | infinity (negative : Bool)
  | nan (negative signaling : Bool) (payload : Nat)
deriving DecidableEq, Inhabited

namespace DecimalNumber

def isNegative : DecimalNumber → Bool
  | finite negative _ _ => negative
  | infinity negative => negative
  | nan negative _ _ => negative

def isNaN : DecimalNumber → Bool
  | nan _ _ _ => true
  | _ => false

def isSignaling : DecimalNumber → Bool
  | nan _ signaling _ => signaling
  | _ => false

/-- The scientific form, without an exponent where the number has a fraction of few places. -/
def writeFinite (coefficient : Nat) (exponent : Int) : List Char :=
  let ds := Digits.write coefficient
  let left := exponent + ds.length
  let point := if exponent ≤ 0 ∧ -6 < left then left else 1
  let magnitude :=
    if point ≤ 0 then '0' :: '.' :: List.replicate (-point).toNat '0' ++ ds
    else if ds.length ≤ point then ds ++ List.replicate (point - ds.length).toNat '0'
    else ds.take point.toNat ++ '.' :: ds.drop point.toNat
  let power :=
    if left = point then []
    else 'E' :: (if left < point then '-' else '+') :: Digits.write (left - point).natAbs
  magnitude ++ power

def writeMagnitude : DecimalNumber → List Char
  | finite _ coefficient exponent => writeFinite coefficient exponent
  | infinity _ => "Infinity".toList
  | nan _ signaling payload =>
    (if signaling then "sNaN" else "NaN").toList
      ++ if payload = 0 then [] else Digits.write payload

def write (d : DecimalNumber) : List Char :=
  (if d.isNegative then ['-'] else []) ++ d.writeMagnitude

/-! Equal values -/

/-- The same product with a power of ten, without zeros at the end of the first factor. -/
def trimZeros (coefficient : Nat) (exponent : Int) : Nat × Int :=
  if 0 < coefficient ∧ coefficient % 10 = 0 then trimZeros (coefficient / 10) (exponent + 1)
  else (coefficient, exponent)
termination_by coefficient
decreasing_by omega

def canonical : DecimalNumber → DecimalNumber
  | finite negative coefficient exponent =>
    if coefficient = 0 then finite false 0 0
    else
      let (c, e) := trimZeros coefficient exponent
      finite negative c e
  | d => d

def sameValue (d e : DecimalNumber) : Bool := !d.isNaN && d.canonical == e.canonical

def ofInt (n : Int) : DecimalNumber := finite (n < 0) n.natAbs 0

end DecimalNumber

end CanonicalSchema
