import CanonicalSchema.Json.Token

/-!
Written integers are read back, as long as what follows cannot go on with the number.
-/

namespace CanonicalSchema

namespace Digits

theorem writeOnto_eq_append (n : Nat) (rest : List Char) : writeOnto n rest = write n ++ rest := by
  unfold write
  induction n using Nat.strongRecOn generalizing rest with
  | _ n ih =>
    rw [writeOnto, writeOnto.eq_def n []]
    split
    · rfl
    · rw [ih (n / 10) (by omega), ih (n / 10) (by omega) [digit n]]
      simp

theorem write_of_lt {n : Nat} (h : n < 10) : write n = [digit n] := by
  unfold write
  rw [writeOnto, if_pos h]

theorem write_of_ge {n : Nat} (h : 10 ≤ n) : write n = write (n / 10) ++ [digit n] := by
  rw [write, writeOnto, if_neg (by omega), writeOnto_eq_append]

theorem digit_mod (n : Nat) : digit (n % 10) = digit n := by simp [digit]

theorem isDigit_digit (n : Nat) : isDigit (digit n) = true := by
  have h : ∀ d < 10, isDigit (digit d) = true := by decide
  rw [← digit_mod]
  exact h _ (Nat.mod_lt _ (by decide))

theorem ne_of_isDigit {c d : Char} (hd : isDigit d = true) (hc : isDigit c = false) : d ≠ c := by
  rintro rfl
  rw [hd] at hc
  contradiction

theorem isDigit_of_mem_write {n : Nat} : ∀ c ∈ write n, isDigit c = true := by
  induction n using Nat.strongRecOn with
  | _ n ih =>
    intro c hc
    by_cases h : n < 10
    · rw [write_of_lt h, List.mem_singleton] at hc
      rw [hc]
      exact isDigit_digit n
    · rw [write_of_ge (by omega), List.mem_append, List.mem_singleton] at hc
      rcases hc with hc | rfl
      · exact ih (n / 10) (by omega) c hc
      · exact isDigit_digit n

theorem write_head {n : Nat} (hn : 0 < n) : ∃ d ds, write n = d :: ds ∧ d ≠ '0' := by
  induction n using Nat.strongRecOn with
  | _ n ih =>
    by_cases h : n < 10
    · have hd : ∀ d < 10, 0 < d → digit d ≠ '0' := by decide
      exact ⟨digit n, [], write_of_lt h, hd n h hn⟩
    · obtain ⟨d, ds, hw, hd⟩ := ih (n / 10) (by omega) (by omega)
      exact ⟨d, ds ++ [digit n], by rw [write_of_ge (by omega), hw]; rfl, hd⟩

theorem exists_write_cons (n : Nat) : ∃ d ds, write n = d :: ds ∧ isDigit d = true := by
  have hall := isDigit_of_mem_write (n := n)
  cases h : write n with
  | nil =>
    by_cases hn : n < 10
    · simp [write_of_lt hn] at h
    · simp [write_of_ge (by omega : 10 ≤ n)] at h
  | cons d ds =>
    rw [h] at hall
    exact ⟨d, ds, rfl, hall d List.mem_cons_self⟩

theorem length_write_le_iff {k n : Nat} :
    (write n).length ≤ k + 1 ↔ n < Nat.pow 10 (k + 1) := by
  induction k generalizing n with
  | zero =>
    obtain ⟨d, ds, hw, -⟩ := exists_write_cons (n / 10)
    by_cases h : n < 10
    · simp [write_of_lt h, h]
    · simp [write_of_ge (Nat.le_of_not_lt h), hw, Nat.le_of_not_lt h]
  | succ k ih =>
    have hpow : Nat.pow 10 (k + 1 + 1) = Nat.pow 10 (k + 1) * 10 := rfl
    by_cases h : n < 10
    · have hone : 0 < Nat.pow 10 (k + 1) := Nat.pow_pos (by decide)
      simp only [write_of_lt h, List.length_singleton]
      omega
    · rw [write_of_ge (Nat.le_of_not_lt h), List.length_append, List.length_singleton,
        Nat.add_le_add_iff_right, ih, hpow, Nat.div_lt_iff_lt_mul (by decide)]

theorem digitValue_lt {c : Char} (h : isDigit c = true) : digitValue c < 10 := by
  simp only [isDigit, Bool.and_eq_true, decide_eq_true_eq] at h
  have hc : c.toNat ≤ 57 := h.2
  unfold digitValue
  omega

theorem read_lt {ds : List Char} (h : ∀ c ∈ ds, isDigit c = true) :
    read ds < Nat.pow 10 ds.length := by
  have hfold : ∀ acc, ds.foldl (fun n c => 10 * n + digitValue c) acc <
      (acc + 1) * Nat.pow 10 ds.length := by
    induction ds with
    | nil =>
      intro acc
      rw [List.length_nil, show Nat.pow 10 0 = 1 from rfl, Nat.mul_one]
      exact Nat.lt_succ_self acc
    | cons d ds ih =>
      intro acc
      rw [List.forall_mem_cons] at h
      have hd := digitValue_lt h.1
      have hpow : Nat.pow 10 (d :: ds).length = Nat.pow 10 ds.length * 10 := rfl
      calc List.foldl _ (10 * acc + digitValue d) ds
        _ < (10 * acc + digitValue d + 1) * Nat.pow 10 ds.length := ih h.2 _
        _ ≤ ((acc + 1) * 10) * Nat.pow 10 ds.length := Nat.mul_le_mul_right _ (by omega)
        _ = (acc + 1) * Nat.pow 10 (d :: ds).length := by
          rw [hpow, Nat.mul_assoc, Nat.mul_comm 10]
  have h0 := hfold 0
  rwa [Nat.zero_add, Nat.one_mul] at h0

end Digits

namespace Json

open Digits

theorem isShortInteger_read {ds : List Char} (hd : ∀ c ∈ ds, isDigit c = true)
    (hl : ds.length ≤ integerLimit) : IsShortInteger (Digits.read ds) := by
  obtain ⟨k, hk⟩ : ∃ k, integerLimit = k + 1 := ⟨4299, rfl⟩
  rw [hk] at hl
  rw [IsShortInteger, Int.natAbs_natCast, hk, length_write_le_iff]
  exact Nat.lt_of_lt_of_le (read_lt hd) (Nat.pow_le_pow_right (by decide) hl)

/-- What does not go on with the digits before it. -/
def EndsDigits (rest : List Char) : Prop := ∀ c ∈ rest.head?, isDigit c = false

/-- What does not go on with the number before it. -/
def EndsNumber (rest : List Char) : Prop :=
  ∀ c ∈ rest.head?, isDigit c = false ∧ c ≠ '.' ∧ c ≠ 'e' ∧ c ≠ 'E'

variable {rest : List Char}

theorem endsDigits_nil : EndsDigits [] := by simp [EndsDigits]

theorem EndsNumber.endsDigits (h : EndsNumber rest) : EndsDigits rest := fun c hc => (h c hc).1

theorem span_digits {ds : List Char} (hd : ∀ c ∈ ds, isDigit c = true) (hr : EndsDigits rest) :
    (ds ++ rest).takeWhile isDigit = ds ∧ (ds ++ rest).dropWhile isDigit = rest := by
  induction ds with
  | nil =>
    cases rest with
    | nil => exact ⟨rfl, rfl⟩
    | cons c rest =>
      have hc : isDigit c = false := hr c rfl
      simp [hc]
  | cons d ds ih =>
    have hdd : isDigit d = true := hd d List.mem_cons_self
    obtain ⟨ht, hdrop⟩ := ih fun c hc => hd c (List.mem_cons_of_mem d hc)
    simp [hdd, ht, hdrop]

theorem scanWhole_spec (cs : List Char) :
    cs = (scanWhole cs).1 ++ (scanWhole cs).2 ∧ (∀ c ∈ (scanWhole cs).1, isDigit c = true) ∧
      ((scanWhole cs).1 = ['0'] ∨ EndsDigits (scanWhole cs).2) := by
  unfold scanWhole
  split
  · exact ⟨rfl, by simp [isDigit], Or.inl rfl⟩
  · refine ⟨List.takeWhile_append_dropWhile.symm, List.all_eq_true.1 List.all_takeWhile,
      Or.inr fun c hc => ?_⟩
    have hnot := List.head?_dropWhile_not isDigit cs
    rw [Option.mem_def.1 hc] at hnot
    exact hnot

theorem scanWhole_write (n : Nat) (hr : EndsDigits rest) :
    scanWhole (write n ++ rest) = (write n, rest) := by
  obtain rfl | hn := Nat.eq_zero_or_pos n
  · rw [write_of_lt (by decide)]
    rfl
  · obtain ⟨d, ds, hw, hd⟩ := write_head hn
    obtain ⟨ht, hdrop⟩ := span_digits (isDigit_of_mem_write (n := n)) hr
    unfold scanWhole
    split
    · next h =>
      rw [hw, List.cons_append] at h
      exact absurd (List.cons.inj h).1 hd
    · rw [ht, hdrop]

theorem scanMinus_writeInt (n : Int) (rest : List Char) :
    scanMinus (writeInt n ++ rest) = (decide (n < 0), write n.natAbs ++ rest) := by
  unfold writeInt
  by_cases hn : n < 0
  · simp [hn, scanMinus]
  · obtain ⟨d, ds, hw, hd⟩ := exists_write_cons n.natAbs
    have hne : d ≠ '-' := ne_of_isDigit hd rfl
    rw [if_neg hn, hw, List.cons_append]
    unfold scanMinus
    split
    · next h => exact absurd (List.cons.inj h).1 hne
    · simp [hn]

theorem writeInt_inj {n m : Int} {rest' : List Char} (hr : EndsDigits rest)
    (hr' : EndsDigits rest') (h : writeInt n ++ rest = writeInt m ++ rest') :
    n = m ∧ rest = rest' := by
  have hs := congrArg scanMinus h
  rw [scanMinus_writeInt, scanMinus_writeInt, Prod.mk.injEq] at hs
  obtain ⟨hsign, hbody⟩ := hs
  have hw := congrArg scanWhole hbody
  rw [scanWhole_write _ hr, scanWhole_write _ hr', Prod.mk.injEq] at hw
  have habs : n.natAbs = m.natAbs := by rw [← read_write n.natAbs, hw.1, read_write]
  have hsign : n < 0 ↔ m < 0 := decide_eq_decide.1 hsign
  exact ⟨by omega, hw.2⟩

theorem scanFraction_of_ends (hr : EndsNumber rest) : scanFraction rest = ([], rest) := by
  unfold scanFraction
  split
  · next rest => exact absurd rfl (hr '.' rfl).2.1
  · rfl

theorem scanExponent_of_ends (hr : EndsNumber rest) : scanExponent rest = (none, rest) := by
  unfold scanExponent
  split
  · rfl
  · next e rest =>
    have he := hr e rfl
    rw [if_neg (by rintro (h | h) <;> simp_all)]

theorem scanNumber_writeInt {n : Int} (hn : IsShortInteger n) (hr : EndsNumber rest) :
    scanNumber (writeInt n ++ rest) = .ok (.int n, rest) := by
  obtain ⟨d, ds, hw, -⟩ := exists_write_cons n.natAbs
  have hne : write n.natAbs ≠ [] := by simp [hw]
  have hvalue : (if n < 0 then -(n.natAbs : Int) else n.natAbs) = n := by
    split <;> omega
  unfold IsShortInteger at hn
  unfold scanNumber
  simp only [scanMinus_writeInt, scanWhole_write _ hr.endsDigits, scanFraction_of_ends hr,
    scanExponent_of_ends hr, if_neg hne, read_write, decide_eq_true_eq, hvalue,
    if_neg (Nat.not_lt.2 hn), and_self, if_true]

end Json

end CanonicalSchema
