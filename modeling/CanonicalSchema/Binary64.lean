/-!
Binary floating-point numbers of 64 bits, as their bits and as the exact rational
`± significand · 2 ^ exponent` that the bits stand for.
-/

namespace CanonicalSchema

structure Binary64 where
  bits : UInt64
deriving DecidableEq

namespace Binary64

def signBit : Nat := 0x8000000000000000

/-- The leading bit of a significand, which the bits of a number leave out; the exponent stands
above the fraction from here on. -/
def leadingBit : Nat := 0x10000000000000

def isNegative (x : Binary64) : Bool := signBit ≤ x.bits.toNat

def biasedExponent (x : Binary64) : Nat := x.bits.toNat / leadingBit % 2048

def fraction (x : Binary64) : Nat := x.bits.toNat % leadingBit

def isFinite (x : Binary64) : Bool := x.biasedExponent != 2047

def isNaN (x : Binary64) : Bool := !x.isFinite && x.fraction != 0

def significand (x : Binary64) : Nat :=
  if x.biasedExponent = 0 then x.fraction else leadingBit + x.fraction

def exponent (x : Binary64) : Int :=
  if x.biasedExponent = 0 then -1074 else (x.biasedExponent : Int) - 1075

def isZero (x : Binary64) : Bool := x.isFinite && x.significand == 0

def signed (negative : Bool) (magnitude : Nat) : Binary64 :=
  ⟨UInt64.ofNat (if negative then signBit + magnitude else magnitude)⟩

def infinity (negative : Bool) : Binary64 := signed negative (2047 * leadingBit)

def nan : Binary64 := ⟨0x7ff8000000000000⟩

def wholeMagnitude? (x : Binary64) : Option Nat :=
  if !x.isFinite then none
  else match x.exponent with
    | .ofNat e => some (x.significand * Nat.pow 2 e)
    | .negSucc e =>
      let unit := Nat.pow 2 (e + 1)
      if x.significand % unit = 0 then some (x.significand / unit) else none

def integer? (x : Binary64) : Option Int :=
  x.wholeMagnitude?.map fun n => if x.isNegative then -(n : Int) else n

def isInteger (x : Binary64) : Bool := x.wholeMagnitude?.isSome

inductive TruncationFault where
  | nan
  | infinity
deriving DecidableEq

def TruncationFault.message : TruncationFault → String
  | nan => "cannot convert float NaN to integer"
  | infinity => "cannot convert float infinity to integer"

def truncatedMagnitude (x : Binary64) : Nat :=
  match x.exponent with
  | .ofNat e => x.significand * Nat.pow 2 e
  | .negSucc e => x.significand / Nat.pow 2 (e + 1)

def truncate (x : Binary64) : Except TruncationFault Int :=
  if x.isNaN then .error .nan
  else if !x.isFinite then .error .infinity
  else .ok (if x.isNegative then -(x.truncatedMagnitude : Int) else x.truncatedMagnitude)

end Binary64

end CanonicalSchema
