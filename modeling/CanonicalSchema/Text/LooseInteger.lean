import CanonicalSchema.Text.Blank
import CanonicalSchema.Text.Digits

/-!
Integers from loosely written texts: with white space around them, a plus sign, zeros in front and
after a point, and underscores between digits. A text that is plain is read as it is; any other one
is simplified once and has to be plain then.
-/

namespace CanonicalSchema.LooseInteger

open Digits (isDigit)

inductive Fault where
  | notInteger
  | tooLong
deriving DecidableEq

def limit : Nat := 4300

def isPlain (ds : List Char) : Bool :=
  ds.all isDigit && (ds == ['0'] || ds.head?.any (· != '0')) && ds.length ≤ limit

/-- An integer as it is written out: no sign but a minus, and no zero in front of a digit. -/
def plain? : List Char → Option Int
  | '-' :: ds => if isPlain ds then some (-(Digits.read ds : Int)) else none
  | ds => if isPlain ds then some (Digits.read ds) else none

def startsTooLong (cs : List Char) : Bool :=
  let body := match cs with
    | '-' :: rest => rest
    | _ => cs
  let ds := body.takeWhile isDigit
  ds.head?.any (· != '0') && limit < ds.length

def splitPlus? : List Char → Option (Bool × List Char)
  | '+' :: '-' :: _ => none
  | '+' :: rest => some (false, rest)
  | '-' :: rest => some (true, rest)
  | cs => some (false, cs)

/-- The rest of a text after zeros and underscores. The one before a point or the end belongs to
the rest; `last` is the character that was passed before. -/
def afterZeros? (last : Char) : List Char → Option (List Char)
  | [] => some [last]
  | c :: rest =>
    if c = '0' ∨ c = '_' then afterZeros? c rest
    else if c = '.' then some (last :: c :: rest)
    else if c = '-' ∨ isDigit c then some (c :: rest)
    else none

def withoutZeros? : List Char → Option (List Char)
  | [] => none
  | c :: rest =>
    if c = '0' then afterZeros? c rest
    else if c = '-' ∨ isDigit c then some (c :: rest)
    else none

/-- A point is left out with the zeros after it, if they are all that is after it. -/
def withoutFraction (cs : List Char) : List Char :=
  match cs.dropWhile (· != '.') with
  | _ :: z :: zs => if (z :: zs).all (· == '0') then cs.takeWhile (· != '.') else cs
  | _ => cs

/-- Whether each underscore stands between two other characters. -/
def isGrouped : List Char → Bool
  | [] => true
  | ['_'] => false
  | '_' :: '_' :: _ => false
  | _ :: rest => isGrouped rest

def withoutGrouping (cs : List Char) : List Char :=
  if cs.head? != some '_' && isGrouped cs then cs.filter (· != '_') else cs

/-- The plain form of an integer that may have white space around it, a plus sign, zeros in front
and after a point, and single underscores between digits. -/
def simplified? (cs : List Char) : Option (List Char) := do
  let (negative, body) ← splitPlus? (Blank.trim cs)
  let ds := withoutGrouping (withoutFraction (← withoutZeros? body))
  return if negative then '-' :: ds else ds

def read (cs : List Char) : Except Fault Int :=
  if startsTooLong cs then .error .tooLong
  else
    match (plain? cs).orElse fun _ => (simplified? cs).bind plain? with
    | some n => .ok n
    | none => .error .notInteger

end CanonicalSchema.LooseInteger
