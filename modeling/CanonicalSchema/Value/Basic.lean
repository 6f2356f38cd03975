import CanonicalSchema.DecimalNumber
import CanonicalSchema.Json.Basic

/-!
The values that may stand where decoded JSON is expected: besides the JSON values tuples, mappings
with any keys, read-only or not, and the foreign values, which are sets, bytes and decimals.
-/

namespace CanonicalSchema

inductive Value where
  | null
  | bool (b : Bool)
  | int (n : Int)
  | float (x : Binary64)
  | str (s : Text)
  | tuple (items : List Value)
  | list (items : List Value)
  | map (entries : List (Value × Value))
  | mutableMap (entries : List (Value × Value))
  | set (items : List Value)
  | bytes (bs : List UInt8)
  | decimal (d : DecimalNumber)
deriving Inhabited

namespace Value

def typeName : Value → String
  | null => "NoneType"
  | bool _ => "bool"
  | int _ => "int"
  | float _ => "float"
  | str _ => "str"
  | tuple _ => "tuple"
  | list _ => "list"
  | map _ => "mappingproxy"
  | mutableMap _ => "dict"
  | set _ => "set"
  | bytes _ => "bytes"
  | decimal _ => "decimal.Decimal"

mutual

def ofJson : Json → Value
  | .null => null
  | .bool b => bool b
  | .int n => int n
  | .float x => float x
  | .str s => str s
  | .arr items => list (ofItems items)
  | .obj members => mutableMap (ofMembers members)

def ofItems : List Json → List Value
  | [] => []
  | v :: vs => ofJson v :: ofItems vs

def ofMembers : List (Text × Json) → List (Value × Value)
  | [] => []
  | (k, v) :: ms => (str k, ofJson v) :: ofMembers ms

end

/-- The exact value of a binary number: each of its halves is five tenths. -/
def ofBinary (x : Binary64) : DecimalNumber :=
  if x.isNaN then .nan false false 0
  else if !x.isFinite then .infinity x.isNegative
  else match x.exponent with
    | .ofNat e => .finite x.isNegative (x.significand * Nat.pow 2 e) 0
    | .negSucc e => .finite x.isNegative (x.significand * Nat.pow 5 (e + 1)) (.negSucc e)

def number? : Value → Option DecimalNumber
  | bool b => some (.ofInt (if b then 1 else 0))
  | int n => some (.ofInt n)
  | float x => some (ofBinary x)
  | decimal d => some d
  | _ => none

def sameNumber (a b : Value) : Bool :=
  match a.number?, b.number? with
  | some d, some e => d.sameValue e
  | _, _ => false

mutual

/-- Whether two keys are one: numbers by their value, whatever their type. -/
def sameKey : Value → Value → Bool
  | null, null => true
  | str s, str t => s == t
  | bytes bs, bytes cs => bs == cs
  | tuple items, tuple items' => sameKeys items items'
  | int n, int m => n == m
  | float x, float y => (x.isZero && y.isZero) || (x == y && !x.isNaN)
  | a, b => sameNumber a b

def sameKeys : List Value → List Value → Bool
  | [], [] => true
  | a :: as, b :: bs => sameKey a b && sameKeys as bs
  | _, _ => false

end

instance : BEq Value := ⟨sameKey⟩

inductive KeyFault where
  | unhashable (typeName : String)
  | signalingNumber
deriving DecidableEq

def KeyFault.message : KeyFault → String
  | unhashable typeName => "unhashable type: '" ++ typeName ++ "'"
  | signalingNumber => "Cannot hash a signaling NaN value"

mutual

def keyFault? : Value → Option KeyFault
  | tuple items => keyFaultOfItems? items
  | list items => some (.unhashable (list items).typeName)
  | map entries => some (.unhashable (map entries).typeName)
  | mutableMap entries => some (.unhashable (mutableMap entries).typeName)
  | set items => some (.unhashable (set items).typeName)
  | decimal d => if d.isSignaling then some .signalingNumber else none
  | _ => none

def keyFaultOfItems? : List Value → Option KeyFault
  | [] => none
  | v :: vs =>
    match keyFault? v with
    | some fault => some fault
    | none => keyFaultOfItems? vs

end

end Value

end CanonicalSchema
