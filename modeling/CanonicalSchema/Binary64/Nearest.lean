import CanonicalSchema.Binary64

/-!
The number nearest to a decimal. Ties go to the even significand, and what is too large becomes
an infinity.
-/

namespace CanonicalSchema.Binary64

/-- The quotient rounded to the nearest natural number, a tie to the even one. -/
def roundQuotient (num den : Nat) : Nat :=
  let q := num / den
  let r := 2 * (num % den)
  if r < den then q
  else if den < r then q + 1
  else q + q % 2

/-- A finite binary exponent `e` at which `num / den / 2 ^ e` has 53 bits, or the least one. -/
def quantum (num den : Nat) : Int :=
  let guess : Int := (num.log2 : Int) - den.log2 - 53
  let wide := if 0 ≤ guess then den * Nat.pow 2 (53 + guess.toNat) ≤ num
    else den * (2 * leadingBit) ≤ num * Nat.pow 2 (-guess).toNat
  max (if wide then guess + 1 else guess) (-1074)

/-- In the bits of a magnitude the exponent stands above the fraction, so a significand that
rounds up to the next power of two carries into the exponent by plain addition. -/
def nearestRatio (negative : Bool) (num den : Nat) : Binary64 :=
  if num = 0 then signed negative 0
  else
    let e := quantum num den
    let q := if 0 ≤ e then roundQuotient num (den * Nat.pow 2 e.toNat)
      else roundQuotient (num * Nat.pow 2 (-e).toNat) den
    let magnitude := (e + 1074).toNat * leadingBit + q
    if 2047 * leadingBit ≤ magnitude then infinity negative else signed negative magnitude

/-- The number nearest to `± coefficient · 10 ^ exponent`. Exponents that are out of range for
every significand are settled without computing the power. -/
def nearestDecimal (negative : Bool) (coefficient : Nat) (exponent : Int) : Binary64 :=
  if coefficient = 0 then signed negative 0
  else if 310 < exponent + (coefficient.log2 * 3 / 10 : Nat) then infinity negative
  else if exponent + (coefficient.log2 * 4 / 10 + 1 : Nat) < -330 then signed negative 0
  else if 0 ≤ exponent then nearestRatio negative (coefficient * Nat.pow 10 exponent.toNat) 1
  else nearestRatio negative coefficient (Nat.pow 10 (-exponent).toNat)

end CanonicalSchema.Binary64
