/-!
Texts by their code points. Besides characters a text may hold surrogates that are no half of a
pair: an escape can name one, though nothing encodes it.
-/

namespace CanonicalSchema

/-- A surrogate is given by its distance from the first one. -/
inductive CodePoint where
  | char (c : Char)
  | surrogate (offset : Fin 0x800)
deriving DecidableEq

namespace CodePoint

def toNat : CodePoint → Nat
  | char c => c.toNat
  | surrogate offset => 0xd800 + offset.val

def ofNat (n : Nat) : CodePoint :=
  if 0xd800 ≤ n ∧ n < 0xe000 then surrogate (Fin.ofNat 0x800 (n - 0xd800)) else char (Char.ofNat n)

def char? : CodePoint → Option Char
  | char c => some c
  | surrogate _ => none

/-- What is shown where only characters can be: three replacement characters for a surrogate, one
for each byte that it would take. -/
def shown : CodePoint → List Char
  | char c => [c]
  | surrogate _ => ['\ufffd', '\ufffd', '\ufffd']

end CodePoint

structure Text where
  points : List CodePoint
deriving DecidableEq, Inhabited

namespace Text

def ofChars (cs : List Char) : Text := ⟨cs.map .char⟩

def ofString (s : String) : Text := ofChars s.toList

instance : Coe String Text := ⟨ofString⟩

instance : Append Text := ⟨fun s t => ⟨s.points ++ t.points⟩⟩

def isEmpty (t : Text) : Bool := t.points.isEmpty

def chars? (t : Text) : Option (List Char) := t.points.mapM CodePoint.char?

def string? (t : Text) : Option String := t.chars?.map String.ofList

def shown (t : Text) : String := String.ofList (t.points.flatMap CodePoint.shown)

def split (t : Text) : List Text := t.points.map fun p => ⟨[p]⟩

def lePoints : List CodePoint → List CodePoint → Bool
  | [], _ => true
  | _ :: _, [] => false
  | p :: ps, q :: qs => p.toNat < q.toNat || (p == q && lePoints ps qs)

def le (s t : Text) : Bool := lePoints s.points t.points

def join (between : Text) (ts : List Text) : Text :=
  ⟨between.points.intercalate (ts.map points)⟩

@[simp] theorem chars?_ofChars (cs : List Char) : (ofChars cs).chars? = some cs := by
  simp only [chars?, ofChars]
  induction cs with
  | nil => rfl
  | cons c cs ih =>
    rw [List.map_cons, List.mapM_cons, ih]
    rfl

@[simp] theorem string?_ofString (s : String) : (ofString s).string? = some s := by
  simp [string?, ofString]

@[simp] theorem ofString_inj {s t : String} : ofString s = ofString t ↔ s = t :=
  ⟨fun h => Option.some.inj (by rw [← string?_ofString s, h, string?_ofString]), fun h => h ▸ rfl⟩

end Text

end CanonicalSchema
