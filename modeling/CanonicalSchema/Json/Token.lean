import CanonicalSchema.Binary64.Nearest
import CanonicalSchema.Json.Basic
import CanonicalSchema.Json.Problem
import CanonicalSchema.Text.Digits

/-!
Strings and numbers of a JSON text. Each is read as far as it goes, and every reading uses up at
least one character.
-/

namespace CanonicalSchema.Json

open Digits (isDigit splitSign splitSign_length)

/-! Strings -/

def unescape? : Char → Option Char
  | '"' => some '"'
  | '\\' => some '\\'
  | '/' => some '/'
  | 'b' => some '\x08'
  | 'f' => some '\x0c'
  | 'n' => some '\n'
  | 'r' => some '\r'
  | 't' => some '\t'
  | _ => none

def isHighSurrogate (unit : Nat) : Bool := 0xd800 ≤ unit && unit < 0xdc00

def isLowSurrogate (unit : Nat) : Bool := 0xdc00 ≤ unit && unit < 0xe000

def ofPair (high low : Nat) : CodePoint :=
  .ofNat (0x10000 + (high - 0xd800) * 0x400 + (low - 0xdc00))

/-- Four hexadecimal digits, with a further character after them. -/
def scanUnit? : List Char → Option (Nat × List Char)
  | a :: b :: c :: d :: rest =>
    if rest.isEmpty then none else (Digits.readHex? [a, b, c, d]).map fun n => (n, rest)
  | _ => none

/-- The second half of a pair: nothing where none is written, and otherwise its unit, or the text
from its letter on where it is broken. -/
def scanLowHalf (cs : List Char) : Except (List Char) (Option (Nat × List Char)) :=
  match cs with
  | '\\' :: 'u' :: rest =>
    match scanUnit? rest with
    | some r => .ok (some r)
    | none => .error ('u' :: rest)
  | _ => .ok none

/-- A Unicode escape after its backslash and its letter; `suffix` is the text from the letter on. A
surrogate that is no half of a pair stands for itself. -/
def scanUnicode (suffix cs : List Char) : Except Stop (CodePoint × List Char) :=
  match scanUnit? cs with
  | none => .error (.malformed .brokenUnicodeEscape suffix)
  | some (unit, rest) =>
    if isHighSurrogate unit then
      match scanLowHalf rest with
      | .error broken => .error (.malformed .brokenUnicodeEscape broken)
      | .ok (some (low, beyond)) =>
        if isLowSurrogate low then .ok (ofPair unit low, beyond) else .ok (.ofNat unit, rest)
      | .ok none => .ok (.ofNat unit, rest)
    else .ok (.ofNat unit, rest)

def scanEscape (start suffix : List Char) : List Char → Except Stop (CodePoint × List Char)
  | [] => .error (.malformed .unterminatedString start)
  | c :: rest =>
    if c = 'u' then scanUnicode (c :: rest) rest
    else
      match unescape? c with
      | some d => .ok (.char d, rest)
      | none => .error (.malformed .unknownEscape suffix)

theorem scanUnit?_length {cs : List Char} {r : Nat × List Char} (h : scanUnit? cs = some r) :
    r.2.length < cs.length := by
  unfold scanUnit? at h
  split at h
  · split at h
    · contradiction
    · obtain ⟨n, _, rfl⟩ := Option.map_eq_some_iff.1 h
      simp only [List.length_cons]
      omega
  · contradiction

theorem scanLowHalf_length {cs : List Char} {r : Nat × List Char}
    (h : scanLowHalf cs = .ok (some r)) : r.2.length < cs.length := by
  unfold scanLowHalf at h
  split at h
  · split at h
    · next hr =>
      cases h
      have := scanUnit?_length hr
      simp only [List.length_cons]
      omega
    · contradiction
  · cases h

theorem scanUnicode_length {suffix cs : List Char} {r : CodePoint × List Char}
    (h : scanUnicode suffix cs = .ok r) : r.2.length < cs.length := by
  unfold scanUnicode at h
  split at h
  · contradiction
  · next hu =>
    have hu := scanUnit?_length hu
    split at h
    · split at h
      · contradiction
      · next hl =>
        have hl := scanLowHalf_length hl
        split at h <;> obtain rfl := Except.ok.inj h
        · exact Nat.lt_trans hl hu
        · exact hu
      · obtain rfl := Except.ok.inj h
        exact hu
    · obtain rfl := Except.ok.inj h
      exact hu

theorem scanEscape_length {start suffix cs : List Char} {r : CodePoint × List Char}
    (h : scanEscape start suffix cs = .ok r) : r.2.length < cs.length := by
  unfold scanEscape at h
  split at h
  · contradiction
  · split at h
    · have := scanUnicode_length h
      simp only [List.length_cons]
      omega
    · split at h
      · cases h
        simp
      · contradiction

/-- Reads on to the closing quote, with the code points so far in reverse. `start` is the text from
the opening quote on. -/
def scanString (start : List Char) (acc : List CodePoint) :
    List Char → Except Stop (Text × List Char)
  | [] => .error (.malformed .unterminatedString start)
  | c :: rest =>
    if c = '"' then .ok (⟨acc.reverse⟩, rest)
    else if c = '\\' then
      match _h : scanEscape start (c :: rest) rest with
      | .error stop => .error stop
      | .ok (d, more) => scanString start (d :: acc) more
    else if c.toNat < 32 then .error (.malformed .controlCharacter (c :: rest))
    else scanString start (.char c :: acc) rest
termination_by cs => cs.length
decreasing_by
  · have := scanEscape_length _h
    simp only [List.length_cons] at this ⊢
    omega
  · simp

theorem scanString_length {start : List Char} {acc : List CodePoint} {cs : List Char}
    {r : Text × List Char} (h : scanString start acc cs = .ok r) : r.2.length < cs.length := by
  fun_induction scanString start acc cs with
  | case1 => contradiction
  | case2 => cases h; simp
  | case3 => contradiction
  | case4 acc rest _ d more he ih =>
    have := ih h
    have := scanEscape_length he
    simp only [List.length_cons] at *
    omega
  | case5 => contradiction
  | case6 acc c rest _ _ _ ih =>
    have := ih h
    simp only [List.length_cons]
    omega

/-! Numbers -/

/-- One zero, or digits that start with none; empty where there is no number. -/
def scanWhole (cs : List Char) : List Char × List Char :=
  match cs with
  | '0' :: rest => (['0'], rest)
  | _ => (cs.takeWhile isDigit, cs.dropWhile isDigit)

/-- A point is part of the number only in front of a digit. -/
def scanFraction : List Char → List Char × List Char
  | '.' :: rest =>
    match rest.takeWhile isDigit with
    | [] => ([], '.' :: rest)
    | ds => (ds, rest.dropWhile isDigit)
  | cs => ([], cs)

/-- A letter `e` is part of the number only in front of a digit or of a sign and a digit. -/
def scanExponent : List Char → Option Int × List Char
  | [] => (none, [])
  | e :: rest =>
    if e = 'e' ∨ e = 'E' then
      let (negative, body) := splitSign rest
      match body.takeWhile isDigit with
      | [] => (none, e :: rest)
      | ds =>
        let n : Int := Digits.read ds
        (some (if negative then -n else n), body.dropWhile isDigit)
    else (none, e :: rest)

/-- Whether there is a minus sign, which is the only sign in front of a number. -/
def scanMinus : List Char → Bool × List Char
  | '-' :: rest => (true, rest)
  | cs => (false, cs)

/-- A number with a fraction or an exponent is a floating-point number, any other an integer. -/
def scanNumber (cs : List Char) : Except Stop (Json × List Char) :=
  let (negative, body) := scanMinus cs
  let (whole, afterWhole) := scanWhole body
  let (fraction, afterFraction) := scanFraction afterWhole
  let (exponent, rest) := scanExponent afterFraction
  if whole = [] then .error (.malformed .noValue cs)
  else if fraction = [] ∧ exponent = none then
    if integerLimit < whole.length then .error (.longInteger whole.length)
    else
      let n : Int := Digits.read whole
      .ok (.int (if negative then -n else n), afterWhole)
  else
    .ok (.float (Binary64.nearestDecimal negative (Digits.read (whole ++ fraction))
      (exponent.getD 0 - fraction.length)), rest)

theorem length_dropWhile_le (p : Char → Bool) (cs : List Char) :
    (cs.dropWhile p).length ≤ cs.length :=
  (List.dropWhile_suffix p).length_le

theorem scanWhole_length {cs : List Char} (h : (scanWhole cs).1 ≠ []) :
    (scanWhole cs).2.length < cs.length := by
  unfold scanWhole at *
  split at h
  · simp
  · have he := congrArg List.length (List.takeWhile_append_dropWhile (p := isDigit) (l := cs))
    have hp : 0 < (cs.takeWhile isDigit).length := List.length_pos_iff.2 h
    simp only [List.length_append] at he
    simp only
    omega

theorem scanFraction_length (cs : List Char) : (scanFraction cs).2.length ≤ cs.length := by
  unfold scanFraction
  split
  · next rest =>
    split
    · simp
    · have := length_dropWhile_le isDigit rest
      simp only [List.length_cons]
      omega
  · simp

theorem scanMinus_length (cs : List Char) : (scanMinus cs).2.length ≤ cs.length := by
  unfold scanMinus
  split <;> simp

theorem scanExponent_length (cs : List Char) : (scanExponent cs).2.length ≤ cs.length := by
  unfold scanExponent
  split
  · simp
  · next e rest =>
    split
    · have hs := splitSign_length rest
      have hd := length_dropWhile_le isDigit (splitSign rest).2
      simp only
      split
      · exact Nat.le_refl _
      · simp only [List.length_cons]
        omega
    · exact Nat.le_refl _

theorem scanNumber_length {cs : List Char} {r : Json × List Char} (h : scanNumber cs = .ok r) :
    r.2.length < cs.length := by
  have hm := scanMinus_length cs
  have hf := scanFraction_length (scanWhole (scanMinus cs).2).2
  have he := scanExponent_length (scanFraction (scanWhole (scanMinus cs).2).2).2
  unfold scanNumber at h
  simp only at h
  split at h
  · cases h
  · next hw =>
    have hw := scanWhole_length hw
    split at h
    · split at h
      · cases h
      · obtain rfl := Except.ok.inj h
        exact Nat.lt_of_lt_of_le hw hm
    · obtain rfl := Except.ok.inj h
      simp only
      omega

end CanonicalSchema.Json
