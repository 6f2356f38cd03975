import CanonicalSchema.Json.Document
import CanonicalSchema.Proofs.Json.Numeral
import CanonicalSchema.Proofs.Json.TokenStart

/-!
What stops the reader where the text is not malformed: an integer of too many digits, and a bracket
that opens one level more than the stack has room for.
-/

namespace CanonicalSchema.Json

open Digits (isDigit)

/-- What can come after an integer: nothing that goes on with it or makes it a floating-point
number. -/
structure EndsInteger (rest : List Char) : Prop where
  digits : EndsDigits rest
  fraction : (scanFraction rest).1 = []
  exponent : (scanExponent rest).1 = none

/-- An integer among the tokens of a text, without its sign, that is too long to be read. -/
structure LongInteger (text digits : List Char) : Prop where
  areDigits : ∀ c ∈ digits, isDigit c = true
  long : integerLimit < digits.length
  placed : ∃ levels rest, TokenStart text levels (digits ++ rest) ∧ EndsInteger rest

/-- An opening bracket among the tokens of a text where the stack is used up. -/
def DeepContainer (depth : Depth) (text : List Char) (c : Container) : Prop :=
  ∃ levels rest, depth.limit ≤ levels ∧ TokenStart text levels (c.opening :: rest)

variable {text cs digits : List Char} {n levels : Nat}

theorem LongInteger.lt_length (h : LongInteger text digits) : integerLimit < text.length := by
  obtain ⟨-, hlong, levels, rest, hstart, -⟩ := h
  have hle := hstart.length_le
  rw [List.length_append] at hle
  omega

theorem DeepContainer.lt_length {depth : Depth} {c : Container} (h : DeepContainer depth text c) :
    depth.limit < text.length := by
  obtain ⟨levels, rest, hlevels, hstart⟩ := h
  have hle := hstart.length_le
  rw [List.length_cons] at hle
  omega

/-! Strings -/

def Stop.IsMalformed : Stop → Prop
  | malformed _ _ => True
  | longInteger _ => False
  | tooDeep _ => False

theorem malformed_of_scanUnicode {suffix : List Char} {stop : Stop}
    (h : scanUnicode suffix cs = .error stop) : stop.IsMalformed := by
  unfold scanUnicode at h
  split at h
  · cases h
    trivial
  · split at h
    · split at h
      · cases h
        trivial
      · split at h <;> cases h
      · cases h
    · cases h

theorem malformed_of_scanEscape {start suffix : List Char} {stop : Stop}
    (h : scanEscape start suffix cs = .error stop) : stop.IsMalformed := by
  unfold scanEscape at h
  split at h
  · cases h
    trivial
  · split at h
    · exact malformed_of_scanUnicode h
    · split at h
      · cases h
      · cases h
        trivial

theorem malformed_of_scanString {start : List Char} {acc : List CodePoint} {stop : Stop}
    (h : scanString start acc cs = .error stop) : stop.IsMalformed := by
  fun_induction scanString start acc cs with
  | case1 =>
    cases h
    trivial
  | case2 => contradiction
  | case3 acc rest _ stop' he =>
    cases h
    exact malformed_of_scanEscape he
  | case4 acc rest _ d more he ih => exact ih h
  | case5 =>
    cases h
    trivial
  | case6 acc c rest _ _ _ ih => exact ih h

/-! Numbers -/

theorem scanFraction_of_nil (h : (scanFraction cs).1 = []) : (scanFraction cs).2 = cs := by
  unfold scanFraction at *
  split at h
  · split at h
    · rfl
    · contradiction
  · rfl

theorem longInteger_of_scanNumber (h : TokenStart text levels cs)
    (hn : scanNumber cs = .error (.longInteger n)) :
    ∃ digits, digits.length = n ∧ LongInteger text digits := by
  obtain ⟨happend, hdigits, hends⟩ := scanWhole_spec (scanMinus cs).2
  have hbody : TokenStart text levels (scanMinus cs).2 := by
    unfold scanMinus
    split
    · exact h.afterFiller rfl
    · exact h
  unfold scanNumber at hn
  simp only at hn
  split at hn
  · cases hn
  · split at hn
    · next hinteger =>
      split at hn
      · next hlong =>
        cases hn
        refine ⟨_, rfl, hdigits, hlong, levels, _, happend ▸ hbody, ?_⟩
        have hafter : EndsDigits (scanWhole (scanMinus cs).2).2 := by
          refine hends.resolve_left fun hzero => ?_
          rw [hzero] at hlong
          exact absurd hlong (by decide)
        rw [scanFraction_of_nil hinteger.1] at hinteger
        exact ⟨hafter, hinteger.1, hinteger.2⟩
      · cases hn
    · cases hn

/-! Values, steps and runs -/

variable {depth : Depth} {expecting : Expecting} {frames : List Frame} {c : Container}

theorem longInteger_of_scanValue (h : TokenStart text levels cs)
    (hv : scanValue cs = .error (.longInteger n)) :
    ∃ digits, digits.length = n ∧ LongInteger text digits := by
  unfold scanValue at hv
  split at hv
  · exact False.elim (malformed_of_scanString (Except.map_eq_error_iff.1 hv))
  · cases hv
  · cases hv
  · split at hv
    · cases hv
    · exact longInteger_of_scanNumber h (Except.map_eq_error_iff.1 hv)

theorem scanNumber_ne_tooDeep : scanNumber cs ≠ .error (.tooDeep c) := by
  intro h
  unfold scanNumber at h
  simp only at h
  split at h
  · cases h
  · split at h
    · split at h <;> cases h
    · cases h

theorem scanValue_ne_tooDeep : scanValue cs ≠ .error (.tooDeep c) := by
  intro h
  unfold scanValue at h
  split at h
  · exact malformed_of_scanString (Except.map_eq_error_iff.1 h)
  · cases h
  · cases h
  · split at h
    · cases h
    · exact scanNumber_ne_tooDeep (Except.map_eq_error_iff.1 h)

/-- What in a text stops the reader without being a flaw of it. -/
inductive Stops (depth : Depth) (text : List Char) : Stop → Prop
  | malformed (problem : Problem) (suffix : List Char) :
      Stops depth text (.malformed problem suffix)
  | longInteger {digits : List Char} (h : LongInteger text digits) :
      Stops depth text (.longInteger digits.length)
  | tooDeep {c : Container} (h : DeepContainer depth text c) : Stops depth text (.tooDeep c)

theorem stops_of_openValue {stop : Stop} (h : TokenStart text frames.length cs)
    (ho : openValue depth frames cs = .error stop) : Stops depth text stop := by
  unfold openValue at ho
  split at ho
  · next hv =>
    cases ho
    cases stop with
    | malformed problem suffix => exact .malformed problem suffix
    | longInteger n =>
      obtain ⟨digits, rfl, hd⟩ := longInteger_of_scanValue h hv
      exact .longInteger hd
    | tooDeep c => exact absurd hv scanValue_ne_tooDeep
  · cases ho
  · next hv =>
    split at ho
    · cases ho
    · next hroom =>
      cases ho
      rw [scanValue_container hv] at h
      exact .tooDeep ⟨_, _, Nat.le_of_not_lt hroom, h⟩

theorem stops_of_openMember {members : Entries Text Json} {stop : Stop}
    (h : openMember members frames cs = .error stop) : Stops depth text stop := by
  have hmalformed : stop.IsMalformed := by
    unfold openMember at h
    split at h
    · exact malformed_of_scanString (Except.map_eq_error_iff.1 h)
    · cases h
      trivial
  cases stop with
  | malformed problem suffix => exact .malformed problem suffix
  | _ => contradiction

theorem stops_of_step {stop : Stop} (h : TokenStart text (expecting.openLevels frames) cs)
    (hs : step depth expecting frames cs = .error stop) : Stops depth text stop := by
  unfold step at hs
  split at hs
  · exact stops_of_openValue h hs
  · split at hs
    · cases hs
    · have hinside : TokenStart text (Frame.array [] :: frames).length cs := h
      exact stops_of_openValue hinside hs
  · split at hs
    · cases hs
    · exact stops_of_openMember hs
  · exact stops_of_openMember hs
  · split at hs
    · cases hs
    · cases hs
      exact .malformed _ _
  · split at hs
    all_goals
      split at hs <;> cases hs
      exact .malformed _ _

/-- Where a text is not read, it is malformed, or an integer of it is too long or a bracket too
deep. -/
theorem failure_of_read {failure : ReadFailure} (h : read depth text = .error failure) :
    failure.faultClass = .format ∨
      (∃ digits, failure = .longInteger digits.length ∧ LongInteger text digits) ∨
      ∃ c, failure = .tooDeep c ∧ DeepContainer depth text c := by
  unfold read at h
  split at h
  · cases h
    exact Or.inl rfl
  · obtain ⟨stop, hr, rfl⟩ := Except.mapError_eq_error_iff.1 h
    have hfirst : TokenStart text (Expecting.value.openLevels []) text := .first
    obtain ⟨expecting, frames, cs, hstart, hs⟩ := hfirst.exists_step_of_run hr
    cases stops_of_step hstart hs with
    | malformed problem suffix => exact Or.inl rfl
    | longInteger hd => exact Or.inr (Or.inl ⟨_, rfl, hd⟩)
    | tooDeep hc => exact Or.inr (Or.inr ⟨_, rfl, hc⟩)

theorem read_of_ofBytes {bytes : List UInt8} {failure : ReadFailure}
    (h : ofBytes depth bytes = .error (.content failure)) :
    ∃ cs, Utf8.decode bytes = .ok cs ∧ read depth (Utf8.unifyNewlines cs) = .error failure := by
  unfold ofBytes at h
  split at h
  · cases h
  · next cs hd =>
    obtain ⟨_, hread, heq⟩ := Except.mapError_eq_error_iff.1 h
    cases heq
    exact ⟨cs, hd, hread⟩

end CanonicalSchema.Json
