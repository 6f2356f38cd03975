import CanonicalSchema.Value.Basic
import Mathlib.Algebra.Order.Field.Rat
import Mathlib.Algebra.Order.Field.Power
import Mathlib.Tactic.FieldSimp
import Mathlib.Tactic.Ring
import Mathlib.Tactic.NormNum
import Mathlib.Tactic.Linarith

/-!
The exact values of numbers. Decimal numbers with one canonical form have one value, and a finite
binary number can be told from all others by its value, but for the sign of zero.
-/

namespace CanonicalSchema

namespace DecimalNumber

def value? : DecimalNumber → Option ℚ
  | finite negative coefficient exponent =>
    some ((if negative then -1 else 1) * (coefficient * 10 ^ exponent))
  | _ => none

theorem trimZeros_value (c : Nat) (e : Int) :
    ((trimZeros c e).1 : ℚ) * 10 ^ (trimZeros c e).2 = c * 10 ^ e := by
  fun_induction trimZeros c e with
  | case1 c e h ih =>
    have hc : c = c / 10 * 10 := by omega
    rw [ih, zpow_add_one₀ (by norm_num)]
    conv_rhs => rw [hc]
    push_cast
    ring
  | case2 c e h => rfl

@[simp] theorem value?_canonical (d : DecimalNumber) : d.canonical.value? = d.value? := by
  cases d with
  | finite negative c e =>
    unfold canonical
    by_cases hc : c = 0
    · simp [hc, value?]
    · simp only [hc, if_false, value?, trimZeros_value]
  | infinity negative => rfl
  | nan negative signaling payload => rfl

theorem value?_eq_of_canonical {d d' : DecimalNumber} (h : d.canonical = d'.canonical) :
    d.value? = d'.value? := by
  rw [← value?_canonical d, h, value?_canonical]

theorem value?_ofInt (n : Int) : (ofInt n).value? = some (n : ℚ) := by
  unfold ofInt value?
  rcases lt_or_ge n 0 with hn | hn
  · have ha : (n.natAbs : ℚ) = -n := by
      rw [Nat.cast_natAbs, abs_of_neg hn]
      push_cast
      rfl
    simp [hn, ha]
  · have ha : (n.natAbs : ℚ) = n := by
      rw [Nat.cast_natAbs, abs_of_nonneg hn]
    simp [not_lt.2 hn, ha]

theorem canonical_ofInt_inj {n m : Int} : (ofInt n).canonical = (ofInt m).canonical ↔ n = m := by
  refine ⟨fun h => ?_, fun h => h ▸ rfl⟩
  have hv := value?_eq_of_canonical h
  rw [value?_ofInt, value?_ofInt, Option.some.injEq] at hv
  exact_mod_cast hv

end DecimalNumber

namespace Binary64

variable {x y : Binary64}

/-! What the bits of a number are -/

theorem bits_eq (x : Binary64) :
    x.bits.toNat = (if x.isNegative then signBit else 0) + x.biasedExponent * leadingBit
      + x.fraction := by
  have hb := x.bits.toNat_lt
  unfold isNegative biasedExponent fraction signBit leadingBit
  by_cases hs : 0x8000000000000000 ≤ x.bits.toNat
  · rw [decide_eq_true hs, if_pos rfl]
    omega
  · rw [decide_eq_false hs, if_neg Bool.false_ne_true]
    omega

theorem ext_parts (hs : x.isNegative = y.isNegative) (he : x.biasedExponent = y.biasedExponent)
    (hf : x.fraction = y.fraction) : x = y := by
  have hb : x.bits.toNat = y.bits.toNat := by rw [bits_eq x, bits_eq y, hs, he, hf]
  obtain ⟨bits⟩ := x
  obtain ⟨bits'⟩ := y
  exact congrArg mk (UInt64.toNat_inj.1 hb)

theorem fraction_lt (x : Binary64) : x.fraction < leadingBit := Nat.mod_lt _ (by decide)

/-! Magnitudes -/

def magnitude (x : Binary64) : ℚ := x.significand * 2 ^ x.exponent

theorem exponent_le_of_magnitude (h : x.magnitude = y.magnitude) : y.exponent ≤ x.exponent := by
  by_contra hlt
  obtain ⟨k, hk⟩ : ∃ k : Nat, y.exponent = x.exponent + (k + 1 : Nat) :=
    ⟨(y.exponent - x.exponent - 1).toNat, by omega⟩
  have hsig : x.significand = y.significand * 2 ^ (k + 1) := by
    unfold magnitude at h
    rw [hk, zpow_add₀ two_ne_zero, zpow_natCast, mul_comm ((2 : ℚ) ^ x.exponent), ← mul_assoc]
      at h
    exact_mod_cast mul_right_cancel₀ (zpow_ne_zero _ two_ne_zero) h
  -- The greater exponent comes with a leading bit, which leaves no room for a factor of two.
  have hy : leadingBit ≤ y.significand := by
    unfold exponent at hlt
    unfold significand
    split_ifs at hlt ⊢ <;> omega
  have hx : x.significand < 2 * leadingBit := by
    have hf := fraction_lt x
    unfold significand
    split_ifs <;> omega
  have hp : y.significand * 2 ≤ y.significand * 2 ^ (k + 1) :=
    Nat.mul_le_mul_left _ (Nat.le_self_pow (Nat.succ_ne_zero k) 2)
  omega

theorem parts_eq_of_magnitude (h : x.magnitude = y.magnitude) :
    x.biasedExponent = y.biasedExponent ∧ x.fraction = y.fraction := by
  have he : x.exponent = y.exponent :=
    le_antisymm (exponent_le_of_magnitude h.symm) (exponent_le_of_magnitude h)
  have hs : x.significand = y.significand := by
    unfold magnitude at h
    rw [he] at h
    exact_mod_cast mul_right_cancel₀ (zpow_ne_zero _ two_ne_zero) h
  have hx := fraction_lt x
  have hy := fraction_lt y
  unfold exponent at he
  unfold significand at hs
  split_ifs at he hs <;> omega

theorem magnitude_nonneg (x : Binary64) : 0 ≤ x.magnitude := by
  unfold magnitude
  positivity

theorem isZero_of_magnitude (hx : x.isFinite = true) (h : x.magnitude = 0) : x.isZero = true := by
  have hs : x.significand = 0 := by
    unfold magnitude at h
    exact_mod_cast (mul_eq_zero.1 h).resolve_right (zpow_ne_zero _ two_ne_zero)
  simp [isZero, hx, hs]

end Binary64

namespace Value

variable {x y : Binary64}

theorem value?_ofBinary (hx : x.isFinite = true) :
    (ofBinary x).value? = some ((if x.isNegative then -1 else 1) * x.magnitude) := by
  have hn : x.isNaN = false := by simp [Binary64.isNaN, hx]
  unfold ofBinary Binary64.magnitude
  rw [hn, hx]
  cases he : x.exponent with
  | ofNat e => simp [DecimalNumber.value?]
  | negSucc e =>
    have hp : (10 : ℚ) ^ (e + 1) = 2 ^ (e + 1) * 5 ^ (e + 1) := by rw [← mul_pow]; norm_num
    simp [DecimalNumber.value?, zpow_negSucc, hp]
    field_simp

theorem eq_or_isZero_of_value (hx : x.isFinite = true) (hy : y.isFinite = true)
    (h : (ofBinary x).value? = (ofBinary y).value?) :
    x.isZero = true ∧ y.isZero = true ∨ x = y := by
  rw [value?_ofBinary hx, value?_ofBinary hy, Option.some.injEq] at h
  have hx0 := x.magnitude_nonneg
  have hy0 := y.magnitude_nonneg
  by_cases hs : x.isNegative = y.isNegative
  · rw [hs] at h
    have hm : x.magnitude = y.magnitude := by
      split at h <;> linarith
    obtain ⟨he, hf⟩ := Binary64.parts_eq_of_magnitude hm
    exact Or.inr (Binary64.ext_parts hs he hf)
  · have hm : x.magnitude = -y.magnitude := by
      cases hxs : x.isNegative <;> cases hys : y.isNegative <;> simp [hxs, hys] at h hs <;> linarith
    exact Or.inl ⟨Binary64.isZero_of_magnitude hx (by linarith),
      Binary64.isZero_of_magnitude hy (by linarith)⟩

theorem canonical_ofBinary_of_isZero (hx : x.isZero = true) :
    (ofBinary x).canonical = .finite false 0 0 := by
  rw [Binary64.isZero, Bool.and_eq_true, beq_iff_eq] at hx
  have hn : x.isNaN = false := by simp [Binary64.isNaN, hx.1]
  unfold ofBinary
  rw [hn, hx.1, hx.2]
  cases x.exponent <;> simp [DecimalNumber.canonical]

theorem canonical_ofBinary_iff (hx : x.isNaN = false) (hy : y.isNaN = false) :
    (ofBinary x).canonical = (ofBinary y).canonical ↔
      x.isZero = true ∧ y.isZero = true ∨ x = y := by
  constructor
  · intro h
    have hv := DecimalNumber.value?_eq_of_canonical h
    cases hfx : x.isFinite <;> cases hfy : y.isFinite
    · -- Infinities have their sign only.
      have hs : x.isNegative = y.isNegative := by
        simpa [ofBinary, hx, hy, hfx, hfy, DecimalNumber.canonical] using h
      simp only [Binary64.isNaN, hfx, hfy, Bool.not_false, Bool.true_and, bne_eq_false_iff_eq]
        at hx hy
      simp only [Binary64.isFinite, bne_eq_false_iff_eq] at hfx hfy
      exact Or.inr (Binary64.ext_parts hs (hfx.trans hfy.symm) (hx.trans hy.symm))
    · rw [value?_ofBinary hfy] at hv
      simp [ofBinary, hx, hfx, DecimalNumber.value?] at hv
    · rw [value?_ofBinary hfx] at hv
      simp [ofBinary, hy, hfy, DecimalNumber.value?] at hv
    · exact eq_or_isZero_of_value hfx hfy hv
  · rintro (⟨hx0, hy0⟩ | rfl)
    · rw [canonical_ofBinary_of_isZero hx0, canonical_ofBinary_of_isZero hy0]
    · rfl

end Value

end CanonicalSchema
