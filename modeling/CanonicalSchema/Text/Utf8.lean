import CanonicalSchema.Text.Digits

/-!
UTF-8 as a machine that takes one byte at a time. A byte that cannot start a character or go on
with one is refused at once, so a flaw covers exactly the bytes that were still good. Decoding
gives back what was encoded.
-/

namespace CanonicalSchema.Utf8

inductive Problem where
  | invalidStart
  | invalidContinuation
  | unexpectedEnd
deriving DecidableEq

def Problem.message : Problem → String
  | invalidStart => "invalid start byte"
  | invalidContinuation => "invalid continuation byte"
  | unexpectedEnd => "unexpected end of data"

/-- The first byte of the bad sequence, its offset, and the length of the sequence. -/
structure Flaw where
  problem : Problem
  byte : UInt8
  offset : Nat
  length : Nat
deriving DecidableEq

def Flaw.message (f : Flaw) : String :=
  let what :=
    if f.length ≤ 1 then
      "byte 0x" ++ String.ofList (Digits.writeHex 2 f.byte.toNat) ++ " in position "
        ++ toString f.offset
    else "bytes in position " ++ toString f.offset ++ "-" ++ toString (f.offset + f.length - 1)
  "'utf-8' codec can't decode " ++ what ++ ": " ++ f.problem.message

/-- A character that has begun: `owed` bytes are missing, and the next lies from `low` to `high`. -/
structure Pending where
  owed : Nat
  low : Nat
  high : Nat
  point : Nat
deriving DecidableEq

/-- What a first byte announces. The bounds on the second byte leave out surrogates, code points
that are too large, and longer forms of shorter characters. -/
def lead? (b : Nat) : Option Pending :=
  if b < 0x80 then some ⟨0, 0, 0, b⟩
  else if b < 0xc2 then none
  else if b < 0xe0 then some ⟨1, 0x80, 0xbf, b - 0xc0⟩
  else if b = 0xe0 then some ⟨2, 0xa0, 0xbf, 0⟩
  else if b = 0xed then some ⟨2, 0x80, 0x9f, 0xd⟩
  else if b < 0xf0 then some ⟨2, 0x80, 0xbf, b - 0xe0⟩
  else if b = 0xf0 then some ⟨3, 0x90, 0xbf, 0⟩
  else if b = 0xf4 then some ⟨3, 0x80, 0x8f, 4⟩
  else if b < 0xf4 then some ⟨3, 0x80, 0xbf, b - 0xf0⟩
  else none

def Pending.next? (p : Pending) (b : Nat) : Option Pending :=
  if p.low ≤ b ∧ b ≤ p.high then some ⟨p.owed - 1, 0x80, 0xbf, p.point * 64 + (b - 0x80)⟩
  else none

/-- The bytes of a character that has begun: what is awaited, the first one, and how many. -/
structure Begun where
  pending : Pending
  first : UInt8
  length : Nat

def Begun.flaw (g : Begun) (problem : Problem) (offset : Nat) : Flaw :=
  ⟨problem, g.first, offset - g.length, g.length⟩

/-- The rest of a text, after the characters so far in reverse; `offset` counts the bytes taken. -/
def decodeFrom (done : List Char) (begun : Option Begun) (offset : Nat) :
    List UInt8 → Except Flaw (List Char)
  | [] =>
    match begun with
    | none => .ok done.reverse
    | some g => .error (g.flaw .unexpectedEnd offset)
  | b :: rest =>
    match begun with
    | none =>
      match lead? b.toNat with
      | none => .error ⟨.invalidStart, b, offset, 1⟩
      | some p =>
        if p.owed = 0 then decodeFrom (Char.ofNat p.point :: done) none (offset + 1) rest
        else decodeFrom done (some ⟨p, b, 1⟩) (offset + 1) rest
    | some g =>
      match g.pending.next? b.toNat with
      | none => .error (g.flaw .invalidContinuation offset)
      | some p =>
        if p.owed = 0 then decodeFrom (Char.ofNat p.point :: done) none (offset + 1) rest
        else decodeFrom done (some ⟨p, g.first, g.length + 1⟩) (offset + 1) rest

def decode (bytes : List UInt8) : Except Flaw (List Char) := decodeFrom [] none 0 bytes

def encodeChar (c : Char) : List UInt8 :=
  let n := c.toNat
  let tail (unit : Nat) : UInt8 := UInt8.ofNat (0x80 + n / unit % 64)
  if n < 0x80 then [UInt8.ofNat n]
  else if n < 0x800 then [UInt8.ofNat (0xc0 + n / 0x40), tail 1]
  else if n < 0x10000 then [UInt8.ofNat (0xe0 + n / 0x1000), tail 0x40, tail 1]
  else [UInt8.ofNat (0xf0 + n / 0x40000), tail 0x1000, tail 0x40, tail 1]

def encode (s : String) : List UInt8 := s.toList.flatMap encodeChar

/-! What is encoded is decoded again. -/

theorem lead?_two : ∀ a < 32, 2 ≤ a → lead? (0xc0 + a) = some ⟨1, 0x80, 0xbf, a⟩ := by
  decide

theorem lead?_three : ∀ a < 16, lead? (0xe0 + a) =
    some ⟨2, if a = 0 then 0xa0 else 0x80, if a = 13 then 0x9f else 0xbf, a⟩ := by
  decide

theorem lead?_four : ∀ a < 5, lead? (0xf0 + a) =
    some ⟨3, if a = 0 then 0x90 else 0x80, if a = 4 then 0x8f else 0xbf, a⟩ := by
  decide

theorem next?_tail (owed point : Nat) {low high t : Nat} (hl : low ≤ 0x80 + t)
    (hh : 0x80 + t ≤ high) :
    Pending.next? ⟨owed, low, high, point⟩ (0x80 + t) =
      some ⟨owed - 1, 0x80, 0xbf, point * 64 + t⟩ := by
  simp [Pending.next?, hl, hh]

theorem next?_anyTail (owed point : Nat) {t : Nat} (ht : t < 64) :
    Pending.next? ⟨owed, 0x80, 0xbf, point⟩ (0x80 + t) =
      some ⟨owed - 1, 0x80, 0xbf, point * 64 + t⟩ :=
  next?_tail owed point (by omega) (by omega)

theorem decodeFrom_encodeChar (done : List Char) (offset : Nat) (c : Char) (rest : List UInt8) :
    decodeFrom done none offset (encodeChar c ++ rest) =
      decodeFrom (c :: done) none (offset + (encodeChar c).length) rest := by
  have hc : Char.ofNat c.toNat = c := Char.ofNat_toNat c
  have hv : c.toNat < 0xd800 ∨ 0xdfff < c.toNat ∧ c.toNat < 0x110000 := c.valid
  unfold encodeChar
  generalize c.toNat = n at hc hv
  simp only [Nat.div_one]
  split
  · next h =>
    have : n % 256 = n := by omega
    simp [decodeFrom, lead?, this, h, hc]
  · split
    · have h₁ : (0xc0 + n / 0x40) % 256 = 0xc0 + n / 0x40 := by omega
      have h₂ : (0x80 + n % 64) % 256 = 0x80 + n % 64 := by omega
      simp only [List.cons_append, List.nil_append, decodeFrom, UInt8.toNat_ofNat', h₁, h₂]
      rw [lead?_two _ (by omega) (by omega)]
      simp only [next?_anyTail _ _ (Nat.mod_lt n (show 64 > 0 by decide))]
      have hn : n / 0x40 * 64 + n % 64 = n := by omega
      rw [hn, hc]
      rfl
    · split
      · have h₁ : (0xe0 + n / 0x1000) % 256 = 0xe0 + n / 0x1000 := by omega
        have h₂ : (0x80 + n / 0x40 % 64) % 256 = 0x80 + n / 0x40 % 64 := by omega
        have h₃ : (0x80 + n % 64) % 256 = 0x80 + n % 64 := by omega
        simp only [List.cons_append, List.nil_append, decodeFrom, UInt8.toNat_ofNat', h₁, h₂, h₃]
        rw [lead?_three _ (by omega)]
        have hl : (if n / 0x1000 = 0 then 0xa0 else 0x80) ≤ 0x80 + n / 0x40 % 64 := by
          split <;> omega
        have hh : 0x80 + n / 0x40 % 64 ≤ (if n / 0x1000 = 13 then 0x9f else 0xbf) := by
          split <;> omega
        simp only [next?_tail _ _ hl hh, next?_anyTail _ _ (Nat.mod_lt n (show 64 > 0 by decide))]
        have hn : (n / 0x1000 * 64 + n / 0x40 % 64) * 64 + n % 64 = n := by omega
        rw [hn, hc]
        rfl
      · have h₁ : (0xf0 + n / 0x40000) % 256 = 0xf0 + n / 0x40000 := by omega
        have h₂ : (0x80 + n / 0x1000 % 64) % 256 = 0x80 + n / 0x1000 % 64 := by omega
        have h₃ : (0x80 + n / 0x40 % 64) % 256 = 0x80 + n / 0x40 % 64 := by omega
        have h₄ : (0x80 + n % 64) % 256 = 0x80 + n % 64 := by omega
        simp only [List.cons_append, List.nil_append, decodeFrom, UInt8.toNat_ofNat', h₁, h₂, h₃,
          h₄]
        rw [lead?_four _ (by omega)]
        have hl : (if n / 0x40000 = 0 then 0x90 else 0x80) ≤ 0x80 + n / 0x1000 % 64 := by
          split <;> omega
        have hh : 0x80 + n / 0x1000 % 64 ≤ (if n / 0x40000 = 4 then 0x8f else 0xbf) := by
          split <;> omega
        simp only [next?_tail _ _ hl hh,
          next?_anyTail _ _ (Nat.mod_lt (n / 0x40) (show 64 > 0 by decide)),
          next?_anyTail _ _ (Nat.mod_lt n (show 64 > 0 by decide))]
        have hn :
            ((n / 0x40000 * 64 + n / 0x1000 % 64) * 64 + n / 0x40 % 64) * 64 + n % 64 = n := by
          omega
        rw [hn, hc]
        rfl

theorem decodeFrom_encode (done : List Char) (offset : Nat) (cs : List Char) :
    decodeFrom done none offset (cs.flatMap encodeChar) = .ok (done.reverse ++ cs) := by
  induction cs generalizing done offset with
  | nil => simp [decodeFrom]
  | cons c cs ih => rw [List.flatMap_cons, decodeFrom_encodeChar, ih]; simp

@[simp] theorem decode_encode (s : String) : decode (encode s) = .ok s.toList := by
  simp [decode, encode, decodeFrom_encode]

/-! Lines -/

/-- Puts a text after one that is given in reverse, with every line ended by a line feed. -/
def unifyNewlinesOnto (done : List Char) : List Char → List Char
  | [] => done.reverse
  | '\r' :: '\n' :: rest => unifyNewlinesOnto ('\n' :: done) rest
  | '\r' :: rest => unifyNewlinesOnto ('\n' :: done) rest
  | c :: rest => unifyNewlinesOnto (c :: done) rest

/-- The lines of a file end in a line feed, whichever way they were ended. -/
def unifyNewlines (cs : List Char) : List Char := unifyNewlinesOnto [] cs

end CanonicalSchema.Utf8
