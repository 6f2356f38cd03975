/-!
Natural numbers in decimal and hexadecimal digits. What is written is read again, hexadecimal
digits up to the width in which they were written.
-/

namespace CanonicalSchema.Digits

def digit (n : Nat) : Char := Char.ofNat (48 + n % 10)

def isDigit (c : Char) : Bool := '0' ≤ c && c ≤ '9'

def digitValue (c : Char) : Nat := c.toNat - 48

/-- Digits in front of what is already written. -/
def writeOnto (n : Nat) (rest : List Char) : List Char :=
  if n < 10 then digit n :: rest else writeOnto (n / 10) (digit n :: rest)
termination_by n
decreasing_by omega

def write (n : Nat) : List Char := writeOnto n []

def read (ds : List Char) : Nat := ds.foldl (fun n c => 10 * n + digitValue c) 0

def writeInt (n : Int) : List Char :=
  if n < 0 then '-' :: write n.natAbs else write n.natAbs

/-- Whether there is a minus sign, and what follows a sign of either kind. -/
def splitSign : List Char → Bool × List Char
  | '-' :: rest => (true, rest)
  | '+' :: rest => (false, rest)
  | cs => (false, cs)

def hexDigit (n : Nat) : Char :=
  if n % 16 < 10 then Char.ofNat (48 + n % 16) else Char.ofNat (87 + n % 16)

def hexValue? (c : Char) : Option Nat :=
  if '0' ≤ c ∧ c ≤ '9' then some (c.toNat - 48)
  else if 'a' ≤ c ∧ c ≤ 'f' then some (c.toNat - 87)
  else if 'A' ≤ c ∧ c ≤ 'F' then some (c.toNat - 55)
  else none

/-- The last `width` hexadecimal digits, in lower case. -/
def writeHex : (width : Nat) → Nat → List Char
  | 0, _ => []
  | width + 1, n => writeHex width (n / 16) ++ [hexDigit n]

def readHex? (ds : List Char) : Option Nat :=
  ds.foldlM (fun n c => (hexValue? c).map (16 * n + ·)) 0

theorem splitSign_length (cs : List Char) : (splitSign cs).2.length ≤ cs.length := by
  unfold splitSign
  split <;> simp

theorem digitValue_digit (n : Nat) : digitValue (digit n) = n % 10 := by
  have h : n % 10 < 10 := Nat.mod_lt _ (by decide)
  have : ∀ m < 10, (Char.ofNat (48 + m)).toNat - 48 = m := by decide
  exact this _ h

theorem foldl_writeOnto (n : Nat) (rest : List Char) (acc : Nat) :
    ∃ scale, (writeOnto n rest).foldl (fun m c => 10 * m + digitValue c) acc =
      rest.foldl (fun m c => 10 * m + digitValue c) (acc * scale + n) := by
  induction n using Nat.strongRecOn generalizing rest with
  | _ n ih =>
    rw [writeOnto]
    split
    · next h => exact ⟨10, by simp [digitValue_digit, Nat.mod_eq_of_lt h, Nat.mul_comm]⟩
    · next h =>
      obtain ⟨scale, hs⟩ := ih (n / 10) (by omega) (digit n :: rest)
      refine ⟨10 * scale, ?_⟩
      rw [hs]
      simp only [List.foldl_cons, digitValue_digit]
      congr 1
      have : acc * (10 * scale) = 10 * (acc * scale) := by
        rw [Nat.mul_left_comm]
      omega

@[simp] theorem read_write (n : Nat) : read (write n) = n := by
  obtain ⟨scale, h⟩ := foldl_writeOnto n [] 0
  simpa [read, write] using h

theorem hexValue?_hexDigit : ∀ d < 16, hexValue? (hexDigit d) = some d := by decide

theorem hexDigit_mod (n : Nat) : hexDigit (n % 16) = hexDigit n := by
  simp [hexDigit]

@[simp] theorem readHex?_writeHex (width n : Nat) :
    readHex? (writeHex width n) = some (n % Nat.pow 16 width) := by
  induction width generalizing n with
  | zero => simp [writeHex, readHex?, Nat.mod_one]
  | succ width ih =>
    have hd : n % 16 < 16 := Nat.mod_lt _ (by decide)
    have hm : n % Nat.pow 16 (width + 1) = 16 * (n / 16 % Nat.pow 16 width) + n % 16 := by
      rw [Nat.pow_eq, Nat.pow_eq, Nat.pow_succ, Nat.mul_comm, Nat.mod_mul, Nat.add_comm]
    simp only [readHex?] at ih
    rw [writeHex, readHex?, List.foldlM_append, ih, hm, ← hexDigit_mod]
    simp [hexValue?_hexDigit _ hd]

end CanonicalSchema.Digits
