import CanonicalSchema.Checked.Basic
import CanonicalSchema.Text.LooseInteger

/-!
Checks of single JSON values, lenient where a value of another type has an obvious reading.
-/

namespace CanonicalSchema.Checked

def text : Json → Checked Text
  | .str s => accepted s
  | _ => fail .notText

/-- A text has to be made of characters where more is asked of it than to be one. -/
def characters {α : Type} (check : String → Checked α) (s : Text) : Checked α :=
  match s.string? with
  | some s => check s
  | none => fail .notUnicode

def nonEmptyText : Json → Checked String
  | .str s => characters (fun s => if s.isEmpty then fail .emptyText else accepted s) s
  | _ => fail .notText

def nullable {α : Type} (check : Json → Checked α) : Json → Checked (Option α)
  | .null => accepted none
  | j => some <$> check j

def texts : Json → Checked (List Text)
  | .arr items => all (items.mapIdx fun i j => (text j).under (.position i))
  | _ => fail .notSequence

@[simp] theorem nullable_text_ofOption (s : Option Text) :
    nullable text (Json.ofOption .str s) = accepted s := by
  cases s <;> rfl

@[simp] theorem texts_map_str (ss : List Text) : texts (.arr (ss.map .str)) = accepted ss := by
  have h : ((ss.map Json.str).mapIdx fun i j => (text j).under (.position i)) =
      ss.map accepted := by
    apply List.ext_getElem <;> simp [text, under]
  rw [texts, h, all_map_accepted]

def oneOf {α : Type} (labels : List String) (ofLabel? : String → Option α) : Json → Checked α
  | .str s =>
    characters (fun s =>
      match ofLabel? s with
      | some a => accepted a
      | none => fail (.notOneOf labels)) s
  | _ => fail (.notOneOf labels)

/-! Truth values -/

def falseWords : List String := ["0", "off", "f", "false", "n", "no"]

def trueWords : List String := ["1", "on", "t", "true", "y", "yes"]

def lowerAscii (s : String) : String := String.ofList (s.toList.map Char.toLower)

def isShort (n : Int) : Bool := -0x8000000000000000 ≤ n && n < 0x8000000000000000

/-- Whether a magnitude and a sign fit into 64 bits. -/
def isShortMagnitude (n : Int) : Bool := n.natAbs < 0x8000000000000000

def flagOfInt (n : Int) : Checked Bool :=
  if n = 0 then accepted false
  else if n = 1 then accepted true
  else if isShort n then fail .unreadableBoolean
  else fail .notBoolean

def flagOfWord (s : String) : Checked Bool :=
  if falseWords.contains (lowerAscii s) then accepted false
  else if trueWords.contains (lowerAscii s) then accepted true
  else fail .unreadableBoolean

def flag : Json → Checked Bool
  | .bool b => accepted b
  | .int n => flagOfInt n
  | .float x =>
    match x.integer? with
    | some n => if isShortMagnitude n then flagOfInt n else fail .notBoolean
    | none => fail .notBoolean
  | .str s => characters flagOfWord s
  | _ => fail .notBoolean

/-! Positive integers -/

def integerOfWord (s : String) : Checked Int :=
  match LooseInteger.read s.toList with
  | .ok n => accepted n
  | .error .tooLong => fail .oversizedInteger
  | .error .notInteger => fail .unreadableInteger

def integer : Json → Checked Int
  | .int n => accepted n
  | .bool b => accepted (if b then 1 else 0)
  | .float x =>
    if !x.isFinite then fail .infiniteNumber
    else
      match x.integer? with
      | none => fail .fractionalNumber
      | some n => if isShortMagnitude n then accepted n else fail .oversizedInteger
  | .str s => characters integerOfWord s
  | _ => fail .notInteger

def positive (j : Json) : Checked Nat :=
  match integer j with
  | accepted n => if 0 < n then accepted n.toNat else fail .notPositive
  | rejected is => rejected is

end CanonicalSchema.Checked
