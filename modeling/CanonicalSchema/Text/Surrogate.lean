import CanonicalSchema.Text
import CanonicalSchema.Text.Digits

/-!
What becomes of a text with surrogates where only characters can go: it is refused, or each of them
is written as an escape.
-/

namespace CanonicalSchema

namespace CodePoint

def isSurrogate : CodePoint → Bool
  | char _ => false
  | surrogate _ => true

def escaped (p : CodePoint) : List Char := '\\' :: 'u' :: Digits.writeHex 4 p.toNat

def escapedSurrogate : CodePoint → List Char
  | char c => [c]
  | surrogate offset => (surrogate offset).escaped

end CodePoint

/-- The first run of surrogates in a text and its place. -/
structure Unencodable where
  position : Nat
  run : List CodePoint
deriving DecidableEq

def Unencodable.message (u : Unencodable) : String :=
  let what := match u.run with
    | [p] => "character '" ++ String.ofList p.escaped ++ "' in position " ++ toString u.position
    | run => "characters in position " ++ toString u.position ++ "-"
        ++ toString (u.position + run.length - 1)
  "'utf-8' codec can't encode " ++ what ++ ": surrogates not allowed"

namespace Text

def encodable (t : Text) : Except Unencodable String :=
  match t.string? with
  | some s => .ok s
  | none =>
    let before := t.points.takeWhile fun p => !p.isSurrogate
    let fromRun := t.points.dropWhile fun p => !p.isSurrogate
    .error ⟨before.length, fromRun.takeWhile CodePoint.isSurrogate⟩

def escapedSurrogates (t : Text) : String :=
  String.ofList (t.points.flatMap CodePoint.escapedSurrogate)

@[simp] theorem encodable_ofString (s : String) : (ofString s).encodable = .ok s := by
  simp [encodable]

end Text

end CanonicalSchema
