import CanonicalSchema.DecimalNumber
import CanonicalSchema.Text.Blank
import CanonicalSchema.Text.DecimalDigit

/-!
Decimal numbers from their texts. White space around a text and underscores anywhere in it say
nothing, digits may be of any script, and letters of either case.
-/

namespace CanonicalSchema.DecimalNumber

open Digits (isDigit splitSign)

inductive NumeralFault where
  | notNumeral
  | outOfRange
deriving DecidableEq

/-- An ASCII character for itself, any other one for the digit that it is. -/
def plainChar? (c : Char) : Option Char :=
  if c.toNat < 128 then some c.toLower else (DecimalDigit.value? c).map Digits.digit

def plain? (cs : List Char) : Option (List Char) :=
  ((Blank.trimBy Blank.isBlankOrSeparator cs).filter (· != '_')).mapM plainChar?

/-- Digits with at most one point, as one number and the count of those after the point. -/
def mantissa? (cs : List Char) : Option (Nat × Nat) :=
  let whole := cs.takeWhile isDigit
  let fraction := (cs.dropWhile isDigit).drop 1
  let ds := whole ++ fraction
  if (cs.dropWhile isDigit).head?.all (· == '.') && ds.all isDigit && !ds.isEmpty then
    some (Digits.read ds, fraction.length)
  else none

/-- What follows the letter of an exponent; zero without a letter. -/
def power? (cs : List Char) : Option Int :=
  match cs with
  | [] => some 0
  | _ :: cs =>
    let (negative, ds) := splitSign cs
    if ds.all isDigit && !ds.isEmpty then
      some (if negative then -(Digits.read ds : Int) else Digits.read ds)
    else none

/-- The largest exponent of a number that is written with one digit in front of the point. -/
def largestExponent : Int := 999999999999999999

def leastExponent : Int := -1999999999999999997

def inRange (coefficient : Nat) (exponent : Int) : Bool :=
  leastExponent ≤ exponent
    && exponent + (Digits.write coefficient).length - 1 ≤ largestExponent

def readFinite (negative : Bool) (cs : List Char) : Except NumeralFault DecimalNumber :=
  match mantissa? (cs.takeWhile (· != 'e')), power? (cs.dropWhile (· != 'e')) with
  | some (coefficient, places), some power =>
    let exponent := power - places
    if inRange coefficient exponent then .ok (finite negative coefficient exponent)
    else .error .outOfRange
  | _, _ => .error .notNumeral

def readPayload (negative signaling : Bool) (ds : List Char) :
    Except NumeralFault DecimalNumber :=
  if ds.all isDigit then .ok (nan negative signaling (Digits.read ds)) else .error .notNumeral

def readMagnitude (negative : Bool) (cs : List Char) : Except NumeralFault DecimalNumber :=
  match cs with
  | 'n' :: 'a' :: 'n' :: ds => readPayload negative false ds
  | 's' :: 'n' :: 'a' :: 'n' :: ds => readPayload negative true ds
  | _ =>
    if cs = "inf".toList ∨ cs = "infinity".toList then .ok (infinity negative)
    else readFinite negative cs

def read (cs : List Char) : Except NumeralFault DecimalNumber :=
  match plain? cs with
  | none => .error .notNumeral
  | some cs =>
    let (negative, magnitude) := splitSign cs
    readMagnitude negative magnitude

end CanonicalSchema.DecimalNumber
