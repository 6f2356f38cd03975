import CanonicalSchema.Entries
import CanonicalSchema.Binary64
import CanonicalSchema.Text

/-!
JSON values. Integers are unbounded and apart from floating-point numbers; objects keep the order
of their members.
-/

namespace CanonicalSchema

inductive Json where
  | null
  | bool (b : Bool)
  | int (n : Int)
  | float (x : Binary64)
  | str (s : Text)
  | arr (items : List Json)
  | obj (members : List (Text × Json))
deriving Inhabited

namespace Json

/-- What counts as nothing given: null, false, zero and the empty text, array and object. -/
def isBlank : Json → Bool
  | null => true
  | bool b => !b
  | int n => n == 0
  | float x => x.isZero
  | str s => s.isEmpty
  | arr items => items.isEmpty
  | obj members => members.isEmpty

def ofOption {α : Type} (f : α → Json) : Option α → Json
  | none => null
  | some a => f a

/-- A member of an object; null elsewhere and where it is missing. -/
def member (j : Json) (label : Text) : Json :=
  match j with
  | obj members => (Entries.get? members label).getD null
  | _ => null

end Json

end CanonicalSchema
