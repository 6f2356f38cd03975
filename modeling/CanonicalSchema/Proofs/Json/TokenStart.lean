import CanonicalSchema.Json.Reader
import CanonicalSchema.Proofs.Except

/-!
Where the tokens of a text start, and how many arrays and objects are open there. A token is a
string, a number, a bracket, or any other character on its own. The reader, which also looks at the
order of the tokens, stops at the start of one at the latest.
-/

namespace CanonicalSchema.Json

open Digits (isDigit)

def Container.opening : Container → Char
  | array => '['
  | object => '\x7b'

def Container.closing : Container → Char
  | array => ']'
  | object => '\x7d'

/-- A character that starts no string and no number, and is no bracket. A minus sign is such a
character, also in front of a number. -/
def isFiller (c : Char) : Bool :=
  !(c == '"' || c == '[' || c == ']' || c == '\x7b' || c == '\x7d' || isDigit c)

/-- A rest of the text from the start of a token on, with the number of containers open there. -/
inductive TokenStart (text : List Char) : Nat → List Char → Prop
  | first : TokenStart text 0 text
  | afterString {levels : Nat} {cs rest : List Char} {s : Text}
      (h : TokenStart text levels ('"' :: cs))
      (hs : scanString ('"' :: cs) [] cs = .ok (s, rest)) : TokenStart text levels rest
  | afterNumber {levels : Nat} {cs rest : List Char} {v : Json} (h : TokenStart text levels cs)
      (hn : scanNumber cs = .ok (v, rest)) : TokenStart text levels rest
  | afterFiller {levels : Nat} {c : Char} {cs : List Char} (h : TokenStart text levels (c :: cs))
      (hc : isFiller c = true) : TokenStart text levels cs
  | inside {levels : Nat} {cs : List Char} (c : Container)
      (h : TokenStart text levels (c.opening :: cs)) : TokenStart text (levels + 1) cs
  | outside {levels : Nat} {cs : List Char} (c : Container)
      (h : TokenStart text (levels + 1) (c.closing :: cs)) : TokenStart text levels cs

variable {text cs rest : List Char} {levels : Nat}

namespace TokenStart

theorem dropSpace (h : TokenStart text levels cs) :
    TokenStart text levels (cs.dropWhile isSpace) := by
  induction cs with
  | nil => exact h
  | cons c cs ih =>
    cases hc : isSpace c with
    | false => rwa [List.dropWhile_cons_of_neg (by simp [hc])]
    | true =>
      rw [List.dropWhile_cons_of_pos hc]
      have hfiller : isFiller c = true := by
        simp only [isSpace, Bool.or_eq_true, beq_iff_eq] at hc
        rcases hc with ((rfl | rfl) | rfl) | rfl <;> rfl
      exact ih (h.afterFiller hfiller)

theorem afterFillers {w : List Char} (h : TokenStart text levels (w ++ rest))
    (hw : ∀ c ∈ w, isFiller c = true) : TokenStart text levels rest := by
  induction w with
  | nil => exact h
  | cons c w ih =>
    rw [List.forall_mem_cons] at hw
    exact ih (h.afterFiller hw.1) hw.2

theorem afterWord {v : Json} (h : TokenStart text levels cs)
    (hw : scanWord? cs = some (v, rest)) : TokenStart text levels rest := by
  obtain ⟨w, hmem, hw⟩ := List.exists_of_findSome?_eq_some hw
  obtain ⟨_, hr, heq⟩ := Option.map_eq_some_iff.1 hw
  cases heq
  have hfiller : ∀ w ∈ words, w.1.toList.all isFiller = true := by decide
  rw [afterWord?_eq_some_iff.1 hr] at h
  exact h.afterFillers (List.all_eq_true.1 (hfiller w hmem))

end TokenStart

/-! Values -/

theorem scanValue_container {c : Container} (h : scanValue cs = .ok (.container c, rest)) :
    cs = c.opening :: rest := by
  unfold scanValue at h
  split at h
  · obtain ⟨_, -, heq⟩ := Except.map_eq_ok_iff.1 h
    cases heq
  · cases h
    rfl
  · cases h
    rfl
  · split at h
    · cases h
    · obtain ⟨_, -, heq⟩ := Except.map_eq_ok_iff.1 h
      cases heq

theorem TokenStart.afterScalar {v : Json} (h : TokenStart text levels cs)
    (hv : scanValue cs = .ok (.scalar v, rest)) : TokenStart text levels rest := by
  unfold scanValue at hv
  split at hv
  · obtain ⟨_, hs, heq⟩ := Except.map_eq_ok_iff.1 hv
    cases heq
    exact h.afterString hs
  · cases hv
  · cases hv
  · split at hv
    · next hw =>
      cases hv
      exact h.afterWord hw
    · obtain ⟨_, hn, heq⟩ := Except.map_eq_ok_iff.1 hv
      cases heq
      exact h.afterNumber hn

/-! Steps and runs -/

/-- How many containers are open where such a thing has to come next. One that has just been opened,
or in which a label stands alone, has no frame. -/
def Expecting.openLevels (expecting : Expecting) (frames : List Frame) : Nat :=
  match expecting with
  | value | endOf _ => frames.length
  | elementOrEnd | memberOrEnd | member _ | colon _ _ => frames.length + 1

variable {depth : Depth} {expecting : Expecting} {frames frames' : List Frame} {next : Expecting}

theorem Container.openLevels_first (c : Container) :
    c.first.openLevels frames = frames.length + 1 := by
  cases c <;> rfl

namespace TokenStart

theorem openValue (h : TokenStart text frames.length cs)
    (ho : Json.openValue depth frames cs = .ok (.go next frames' rest)) :
    TokenStart text (next.openLevels frames') rest := by
  unfold Json.openValue at ho
  split at ho
  · cases ho
  · next hv =>
    cases ho
    exact h.afterScalar hv
  · next c _ hv =>
    split at ho
    · cases ho
      rw [scanValue_container hv] at h
      rw [Container.openLevels_first]
      exact h.inside c
    · cases ho

theorem openMember {members : Entries Text Json} (h : TokenStart text (frames.length + 1) cs)
    (ho : Json.openMember members frames cs = .ok (.go next frames' rest)) :
    TokenStart text (next.openLevels frames') rest := by
  unfold Json.openMember at ho
  split at ho
  · obtain ⟨_, hs, heq⟩ := Except.map_eq_ok_iff.1 ho
    cases heq
    exact h.afterString hs
  · cases ho

/-- A step takes the reader from the start of a token to that of the next one. -/
theorem step (h : TokenStart text (expecting.openLevels frames) cs)
    (hs : Json.step depth expecting frames cs = .ok (.go next frames' rest)) :
    TokenStart text (next.openLevels frames') rest := by
  unfold Json.step at hs
  split at hs
  · exact h.openValue hs
  · split at hs
    · cases hs
      exact h.outside .array
    · have hinside : TokenStart text (Frame.array [] :: frames).length cs := h
      exact hinside.openValue hs
  · split at hs
    · cases hs
      exact h.outside .object
    · exact h.openMember hs
  · exact h.openMember hs
  · split at hs
    · cases hs
      exact h.afterFiller rfl
    · cases hs
  · split at hs
    · split at hs <;> cases hs
    · split at hs <;> cases hs
      · exact h.afterFiller rfl
      · exact h.outside .array
    · split at hs <;> cases hs
      · exact h.afterFiller rfl
      · exact h.outside .object

/-- A run that stops does so in a step at the start of a token. -/
theorem exists_step_of_run {stop : Stop} (h : TokenStart text (expecting.openLevels frames) cs)
    (hr : run depth expecting frames cs = .error stop) :
    ∃ expecting' frames' cs', TokenStart text (expecting'.openLevels frames') cs' ∧
      Json.step depth expecting' frames' cs' = .error stop := by
  fun_induction run depth expecting frames cs with
  | case1 expecting frames cs stop' hs =>
    cases hr
    exact ⟨expecting, frames, _, h.dropSpace, hs⟩
  | case2 => contradiction
  | case3 expecting frames cs next frames' rest hs ih => exact ih (h.dropSpace.step hs) hr

/-- Every container that is open has taken up a character. -/
theorem length_le (h : TokenStart text levels cs) : levels + cs.length ≤ text.length := by
  induction h with
  | first => exact Nat.le_of_eq (Nat.zero_add _)
  | afterString _ hs ih =>
    have hlt := scanString_length hs
    simp only at hlt
    rw [List.length_cons] at ih
    omega
  | afterNumber _ hn ih =>
    have hlt := scanNumber_length hn
    simp only at hlt
    omega
  | afterFiller _ _ ih | inside _ _ ih | outside _ _ ih =>
    rw [List.length_cons] at ih
    omega

end TokenStart

end CanonicalSchema.Json
