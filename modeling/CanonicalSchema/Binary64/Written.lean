import CanonicalSchema.Binary64.Shortest
import CanonicalSchema.Text.Digits

/-!
Finite numbers in decimal: the shortest digits, with a point or an exponent always present, so
that a number is never taken for an integer.
-/

namespace CanonicalSchema.Binary64

/-- From `1e-04` up to below `1e+16` a number is written without an exponent. -/
def positional (leading : Int) : Bool := -4 ≤ leading && leading < 16

/-- An exponent has a sign and at least two digits. -/
def writeExponent (e : Int) : List Char :=
  let ds := Digits.write e.natAbs
  'e' :: (if e < 0 then '-' else '+') :: (if ds.length < 2 then '0' :: ds else ds)

def Decimal.write (d : Decimal) : List Char :=
  let ds := Digits.write d.coefficient
  let leading := d.exponent + ds.length - 1
  if positional leading then
    if 0 ≤ d.exponent then ds ++ List.replicate d.exponent.toNat '0' ++ ['.', '0']
    else if leading < 0 then '0' :: '.' :: List.replicate (-leading - 1).toNat '0' ++ ds
    else ds.take (leading.toNat + 1) ++ '.' :: ds.drop (leading.toNat + 1)
  else
    match ds with
    | [] => []
    | [c] => c :: writeExponent leading
    | c :: cs => c :: '.' :: cs ++ writeExponent leading

/-- A coefficient that was rounded up to a power of ten loses its zeros. -/
def Decimal.trim (d : Decimal) : Decimal :=
  if h : 0 < d.coefficient ∧ d.coefficient % 10 = 0 then
    Decimal.trim ⟨d.coefficient / 10, d.exponent + 1⟩
  else d
termination_by d.coefficient
decreasing_by omega

def write (x : Binary64) : List Char :=
  let magnitude := (shortest x).trim.write
  if x.isNegative then '-' :: magnitude else magnitude

end CanonicalSchema.Binary64
