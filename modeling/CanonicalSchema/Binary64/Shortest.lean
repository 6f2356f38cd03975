import CanonicalSchema.Binary64

/-!
The decimal of fewest digits that lies nearer to a number than to any of its neighbours, so that
rounding it gives the number back. Of several with that many digits it is the nearest one.
-/

namespace CanonicalSchema.Binary64

/-- The number `coefficient · 10 ^ exponent`. -/
structure Decimal where
  coefficient : Nat
  exponent : Int
deriving DecidableEq

/-- A number and the two ends of the interval that rounds to it, over one denominator. -/
structure Interval where
  low : Nat
  value : Nat
  high : Nat
  den : Nat
  closed : Bool

/-- Below a power of two the neighbour is half as far away. -/
def interval (x : Binary64) : Interval :=
  let m := x.significand
  let up := Nat.pow 2 x.exponent.toNat
  let below := if x.fraction = 0 ∧ 1 < x.biasedExponent then 1 else 2
  { low := (4 * m - below) * up, value := 4 * m * up, high := (4 * m + 2) * up
    den := 4 * Nat.pow 2 (-x.exponent).toNat, closed := m % 2 == 0 }

/-- The power of ten of the leading digit. The estimate from the binary logarithm is off by at
most one. -/
def leadingPower (value den : Nat) : Int :=
  let reaches (k : Int) : Bool := den * Nat.pow 10 k.toNat ≤ value * Nat.pow 10 (-k).toNat
  let guess : Int := ((value.log2 : Int) - den.log2) * 30103 / 100000
  if reaches (guess + 1) then guess + 1
  else if reaches guess then guess
  else guess - 1

/-- The multiple of `10 ^ power` in the interval that is nearest to its value, if there is one. -/
def Interval.onGrid? (i : Interval) (power : Int) : Option Nat :=
  let up := Nat.pow 10 (-power).toNat
  let step := i.den * Nat.pow 10 power.toNat
  let inside (c : Nat) : Bool :=
    if i.closed then i.low * up ≤ c * step && c * step ≤ i.high * up
    else i.low * up < c * step && c * step < i.high * up
  let d := i.value * up / step
  let r := 2 * (i.value * up % step)
  let nearer := if r < step then d else if step < r then d + 1 else d + d % 2
  let farther := if nearer = d then d + 1 else d
  if inside nearer then some nearer else if inside farther then some farther else none

/-- Seventeen digits always suffice. -/
def search (i : Interval) (top : Int) : (left : Nat) → Decimal
  | 0 =>
    ⟨i.value * Nat.pow 10 (16 - top).toNat / (i.den * Nat.pow 10 (top - 16).toNat), top - 16⟩
  | left + 1 =>
    let power := top - (16 - left : Nat)
    match i.onGrid? power with
    | some c => ⟨c, power⟩
    | none => search i top left

/-- The shortest decimal for the magnitude of a finite number. -/
def shortest (x : Binary64) : Decimal :=
  if x.significand = 0 then ⟨0, 0⟩
  else
    let i := x.interval
    search i (leadingPower i.value i.den) 17

end CanonicalSchema.Binary64
