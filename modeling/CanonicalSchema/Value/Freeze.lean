import CanonicalSchema.Entries
import CanonicalSchema.Value.Literal

/-!
Freezing turns decoded JSON into values that cannot be changed: mappings become read-only with
texts as keys, sequences become tuples, and everything else must be a scalar. On request a
floating-point number without a fraction becomes the integer it equals.
-/

namespace CanonicalSchema.Value

inductive FreezeFault where
  | unsupported (value : Value)
  | notMapping (value : Value)
  | notIterable (value : Value)
  | notInteger (fault : Binary64.TruncationFault)

def FreezeFault.message : FreezeFault → String
  | unsupported v =>
    let name := match v with
      | decimal _ => "Decimal"
      | v => v.typeName
    "Unsupported JSON value of type " ++ name ++ ": " ++ v.literal
  | notMapping v => "'" ++ v.typeName ++ "' object has no attribute 'items'"
  | notIterable v => "'" ++ v.typeName ++ "' object is not iterable"
  | notInteger fault => fault.message

def narrowFloat (narrow : Bool) (x : Binary64) : Except FreezeFault Value :=
  if narrow && x.isInteger then (x.truncate.map int).mapError .notInteger else .ok (float x)

/-- A read-only mapping; of keys with the same text the first gives the place and the last the
value. -/
def frozenMap (es : List (Text × Value)) : Value :=
  map ((Entries.ofList es).map fun e => (str e.1, e.2))

mutual

/-- The value is taken to be nested no deeper than the stack allows. Every level of it takes up
three levels of the stack here, so that is about a third of the depth to which values are read. -/
def freeze (narrow : Bool) : Value → Except FreezeFault Value
  | null => .ok null
  | bool b => .ok (bool b)
  | int n => .ok (int n)
  | str s => .ok (str s)
  | float x => narrowFloat narrow x
  | map entries => (freezeEntries narrow entries).map frozenMap
  | mutableMap entries => (freezeEntries narrow entries).map frozenMap
  | list items => (freezeItems narrow items).map tuple
  | tuple items => (freezeItems narrow items).map tuple
  | set items => .error (.unsupported (set items))
  | bytes bs => .error (.unsupported (bytes bs))
  | decimal d => .error (.unsupported (decimal d))

def freezeItems (narrow : Bool) : List Value → Except FreezeFault (List Value)
  | [] => .ok []
  | v :: vs => do
    let w ← freeze narrow v
    let ws ← freezeItems narrow vs
    return w :: ws

def freezeEntries (narrow : Bool) :
    List (Value × Value) → Except FreezeFault (List (Text × Value))
  | [] => .ok []
  | (k, v) :: es => do
    let w ← freeze narrow v
    let rest ← freezeEntries narrow es
    return (k.text, w) :: rest

end

def entries? : Value → Option (List (Value × Value))
  | map entries => some entries
  | mutableMap entries => some entries
  | _ => none

def items? : Value → Option (List Value)
  | map entries => some (entries.map Prod.fst)
  | mutableMap entries => some (entries.map Prod.fst)
  | list items => some items
  | tuple items => some items
  | set items => some items
  | str s => some (s.split.map str)
  | bytes bs => some (bs.map fun b => int b.toNat)
  | _ => none

def freezeMapping (narrow : Bool) (v : Value) : Except FreezeFault Value :=
  match v.entries? with
  | some es => (freezeEntries narrow es).map frozenMap
  | none => .error (.notMapping v)

def freezeSequence (narrow : Bool) (v : Value) : Except FreezeFault Value :=
  match v.items? with
  | some items => (freezeItems narrow items).map tuple
  | none => .error (.notIterable v)

end CanonicalSchema.Value
