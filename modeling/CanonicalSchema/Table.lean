import CanonicalSchema.Malformed

/-!
Loose tables: entries given as an object, or as a sequence of pairs whose keys may be any scalars.
-/

namespace CanonicalSchema

inductive Key where
  | null
  | bool (b : Bool)
  | int (n : Int)
  | float (x : Binary64)
  | str (s : Text)
deriving DecidableEq

namespace Key

def ofJson? : Json → Option Key
  | .null => some null
  | .bool b => some (bool b)
  | .int n => some (int n)
  | .float x => some (float x)
  | .str s => some (str s)
  | .arr _ => none
  | .obj _ => none

def toValue : Key → Value
  | null => .null
  | bool b => .bool b
  | int n => .int n
  | float x => .float x
  | str s => .str s

def isNaN : Key → Bool
  | float x => x.isNaN
  | _ => false

/-- Numbers are one key where they are equal, whatever their type. -/
def same (a b : Key) : Bool :=
  match a, b with
  | str s, str t => s == t
  | a, b => a.toValue.sameKey b.toValue || (a.isNaN && b.isNaN)

instance : BEq Key := ⟨same⟩

end Key

namespace Json

def typeName (j : Json) : String := (Value.ofJson j).typeName

/-- The items of an array, the characters of a text, the labels of an object. -/
def items? : Json → Option (List Json)
  | arr items => some items
  | str s => some (s.split.map str)
  | obj members => some (members.map fun m => str m.1)
  | _ => none

end Json

namespace Table

def pair (position : Nat) (j : Json) : Except Malformed (Key × Json) :=
  match j.items? with
  | none => .error (.pairNotSequence position)
  | some [k, v] =>
    match Key.ofJson? k with
    | some key => .ok (key, v)
    | none => .error (.unhashableKey k.typeName)
  | some items => .error (.pairLength position items.length)

/-- The pairs up to the first that is none, and what is wrong with that one. -/
def pairs (position : Nat) : List Json → Entries Key Json × Option Malformed
  | [] => ([], none)
  | j :: js =>
    match pair position j with
    | .error e => ([], some e)
    | .ok entry =>
      let (entries, fault) := pairs (position + 1) js
      (entry :: entries, fault)

/-- The entries that can be read from the front, and what keeps the rest from being read. -/
def readable (j : Json) : Entries Key Json × Option Malformed :=
  match j with
  | .obj members => (members.map fun m => (.str m.1, m.2), none)
  | j =>
    match j.items? with
    | some items => pairs 0 items
    | none => ([], some (.notIterable j.typeName))

def read (j : Json) : Except Malformed (Entries Key Json) :=
  match readable j with
  | (_, some fault) => .error fault
  | (entries, none) => .ok (Entries.ofList entries)

end Table

end CanonicalSchema
