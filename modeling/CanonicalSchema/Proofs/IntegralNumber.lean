import CanonicalSchema.Proofs.NumberValue

/-!
Binary numbers whose exact value is an integer. That a number is one can be seen from its bits, and
cutting off its fraction gives this integer, however great it is.
-/

namespace CanonicalSchema.Binary64

variable {x : Binary64}

/-- The exact value of a finite number: its sign, its significand and the power of two that its bits
stand for. -/
def value? (x : Binary64) : Option ℚ :=
  if x.isFinite then some ((if x.isNegative then -1 else 1) * x.magnitude) else none

theorem value?_eq_some_iff {q : ℚ} :
    x.value? = some q ↔ x.isFinite = true ∧ (if x.isNegative then -1 else 1) * x.magnitude = q := by
  unfold value?
  rw [Option.ite_none_right_eq_some, Option.some.injEq]

/-! Whole magnitudes -/

theorem magnitude_of_ofNat {e m : Nat} (he : x.exponent = .ofNat e) :
    x.magnitude = m ↔ x.significand * Nat.pow 2 e = m := by
  unfold magnitude
  rw [he, Int.ofNat_eq_natCast, zpow_natCast]
  exact_mod_cast Iff.rfl

theorem magnitude_of_negSucc {e m : Nat} (he : x.exponent = .negSucc e) :
    x.magnitude = m ↔ x.significand = m * Nat.pow 2 (e + 1) := by
  unfold magnitude
  rw [he, zpow_negSucc, mul_inv_eq_iff_eq_mul₀ (by positivity)]
  exact_mod_cast Iff.rfl

theorem wholeMagnitude?_eq_some_iff {m : Nat} :
    x.wholeMagnitude? = some m ↔ x.isFinite = true ∧ x.magnitude = m := by
  unfold wholeMagnitude?
  cases x.isFinite with
  | false => simp
  | true =>
    cases he : x.exponent with
    | ofNat e => simp [magnitude_of_ofNat he]
    | negSucc e =>
      have hunit : 0 < Nat.pow 2 (e + 1) := Nat.pow_pos (by decide)
      simp only [magnitude_of_negSucc he, Bool.not_true, Bool.false_eq_true, if_false, true_and,
        Option.ite_none_right_eq_some, Option.some.injEq]
      constructor
      · rintro ⟨hmod, rfl⟩
        exact (Nat.div_mul_cancel (Nat.dvd_of_mod_eq_zero hmod)).symm
      · intro hs
        rw [hs]
        exact ⟨Nat.mul_mod_left _ _, Nat.mul_div_cancel _ hunit⟩

theorem truncatedMagnitude_of_magnitude {m : Nat} (h : x.magnitude = m) :
    x.truncatedMagnitude = m := by
  unfold truncatedMagnitude
  cases he : x.exponent with
  | ofNat e => exact (magnitude_of_ofNat he).1 h
  | negSucc e =>
    simp only [(magnitude_of_negSucc he).1 h]
    exact Nat.mul_div_cancel _ (Nat.pow_pos (by decide))

/-! Integers -/

theorem integer?_eq_map (x : Binary64) :
    x.integer? = x.wholeMagnitude?.map fun m : Nat => if x.isNegative then -(m : Int) else m := by
  unfold integer?
  cases x.wholeMagnitude? <;> rfl

theorem integer?_eq_some_iff {n : Int} : x.integer? = some n ↔ x.value? = some (n : ℚ) := by
  rw [value?_eq_some_iff, integer?_eq_map, Option.map_eq_some_iff]
  constructor
  · rintro ⟨m, hm, rfl⟩
    obtain ⟨hfinite, hmagnitude⟩ := wholeMagnitude?_eq_some_iff.1 hm
    refine ⟨hfinite, ?_⟩
    rw [hmagnitude]
    split <;> simp
  · rintro ⟨hfinite, hvalue⟩
    obtain ⟨m, hm⟩ : ∃ m : Nat, x.magnitude = m := by
      refine ⟨n.natAbs, ?_⟩
      rw [Nat.cast_natAbs, Int.cast_abs, ← hvalue, abs_mul, abs_of_nonneg x.magnitude_nonneg]
      split <;> simp
    refine ⟨m, wholeMagnitude?_eq_some_iff.2 ⟨hfinite, hm⟩, ?_⟩
    rw [hm] at hvalue
    by_cases hs : x.isNegative = true
    · rw [if_pos hs, neg_one_mul] at hvalue
      rw [if_pos hs]
      exact_mod_cast hvalue
    · rw [if_neg hs, one_mul] at hvalue
      rw [if_neg hs]
      exact_mod_cast hvalue

theorem isInteger_iff : x.isInteger = true ↔ ∃ n, x.integer? = some n := by
  unfold isInteger
  rw [← Option.isSome_iff_exists, integer?_eq_map, Option.isSome_map]

theorem truncate_of_integer? {n : Int} (h : x.integer? = some n) : x.truncate = .ok n := by
  rw [integer?_eq_map] at h
  obtain ⟨m, hm, rfl⟩ := Option.map_eq_some_iff.1 h
  obtain ⟨hfinite, hmagnitude⟩ := wholeMagnitude?_eq_some_iff.1 hm
  unfold truncate isNaN
  rw [hfinite, truncatedMagnitude_of_magnitude hmagnitude]
  rfl

end CanonicalSchema.Binary64
