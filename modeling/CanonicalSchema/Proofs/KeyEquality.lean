import CanonicalSchema.Proofs.Construction
import CanonicalSchema.Proofs.NumberValue

/-!
When two keys are one. The comparison goes by cases on the types of both keys; it comes down to the
text of a text and to the value of a number, so it is an equivalence.
-/

namespace CanonicalSchema

open DecimalNumber (ofInt)
open Value (ofBinary)

theorem DecimalNumber.sameValue_iff {d e : DecimalNumber} :
    d.sameValue e = true ↔ d.isNaN = false ∧ d.canonical = e.canonical := by
  simp [sameValue]

theorem DecimalNumber.isNaN_canonical (d : DecimalNumber) : d.canonical.isNaN = d.isNaN := by
  cases d with
  | finite negative c e => by_cases hc : c = 0 <;> simp [canonical, hc, isNaN]
  | infinity negative => rfl
  | nan negative signaling payload => rfl

theorem DecimalNumber.isNaN_ofInt (n : Int) : (ofInt n).isNaN = false := rfl

theorem Value.ofBinary_of_isNaN {x : Binary64} (hx : x.isNaN = true) :
    ofBinary x = .nan false false 0 := by
  unfold ofBinary
  rw [if_pos hx]

theorem Value.isNaN_ofBinary (x : Binary64) : (ofBinary x).isNaN = x.isNaN := by
  unfold ofBinary
  cases x.isNaN
  · cases x.isFinite
    · rfl
    · cases x.exponent <;> rfl
  · rfl

namespace Key

/-- All that the comparison sees of a key: its text, or its value if it has one. -/
def meaning : Key → Text ⊕ Option DecimalNumber
  | str s => .inl s
  | k => .inr (k.toValue.number?.map DecimalNumber.canonical)

theorem isNaN_of_canonical {x : Binary64} {d : DecimalNumber}
    (h : (ofBinary x).canonical = d.canonical) : x.isNaN = d.isNaN := by
  rw [← Value.isNaN_ofBinary, ← DecimalNumber.isNaN_canonical, h, DecimalNumber.isNaN_canonical]

/-- Zeros are one key and so is all that is no number; any other number is a key of its own. -/
theorem sameFloat_iff {x y : Binary64} :
    (x.isZero = true ∧ y.isZero = true ∨ x = y ∧ x.isNaN = false) ∨
        x.isNaN = true ∧ y.isNaN = true ↔
      (ofBinary x).canonical = (ofBinary y).canonical := by
  have hzero {z : Binary64} (hz : z.isZero = true) : z.isNaN = false := by
    rw [Binary64.isZero, Bool.and_eq_true] at hz
    simp [Binary64.isNaN, hz.1]
  have hcanonical (h : (ofBinary x).canonical = (ofBinary y).canonical) : x.isNaN = y.isNaN :=
    (isNaN_of_canonical h).trans (Value.isNaN_ofBinary y)
  cases hx : x.isNaN <;> cases hy : y.isNaN
  case true.true => simp [Value.ofBinary_of_isNaN hx, Value.ofBinary_of_isNaN hy]
  case false.false => simp [Value.canonical_ofBinary_iff hx hy]
  all_goals
    simp only [Bool.false_eq_true, and_false, and_true, or_false]
    constructor
    · rintro (⟨hzx, hzy⟩ | h)
      · simp [hzero hzx, hzero hzy] at hx hy
      · simp_all
    · intro h
      rw [hcanonical h, hy] at hx
      contradiction

theorem beq_iff_meaning {a b : Key} : (a == b) = true ↔ a.meaning = b.meaning := by
  change a.same b = true ↔ _
  cases a <;> cases b <;>
    simp [same, meaning, toValue, Value.sameKey, Value.sameNumber, Value.number?, isNaN,
      DecimalNumber.sameValue_iff, DecimalNumber.isNaN_ofInt, Value.isNaN_ofBinary,
      DecimalNumber.canonical_ofInt_inj]
  case float.bool => exact fun h => isNaN_of_canonical h
  case float.int => exact fun h => isNaN_of_canonical h
  case float.float => exact sameFloat_iff

instance : EquivBEq Key where
  symm h := beq_iff_meaning.2 (beq_iff_meaning.1 h).symm
  trans h h' := beq_iff_meaning.2 ((beq_iff_meaning.1 h).trans (beq_iff_meaning.1 h'))

theorem beq_str_iff {k : Key} {s : Text} : (k == .str s) = true ↔ k = .str s := by
  rw [beq_iff_meaning]
  cases k <;> simp [meaning]

end Key

end CanonicalSchema
