import CanonicalSchema.Json.Quoted
import CanonicalSchema.Json.Token
import CanonicalSchema.Proofs.Text

/-!
A quoted string is read back as the text it was written from, in either spelling, as long as the
text is made of characters. So what is quoted can be told from what follows it.
-/

namespace CanonicalSchema.Json

variable {start cs rest more : List Char} {acc : List CodePoint} {c : Char} {d : CodePoint}

/-! One step of the scanner -/

theorem scanString_quote : scanString start acc ('"' :: rest) = .ok (⟨acc.reverse⟩, rest) := by
  rw [scanString]
  simp

theorem scanString_plain (hq : c ≠ '"') (hb : c ≠ '\\') (hc : 32 ≤ c.toNat) :
    scanString start acc (c :: rest) = scanString start (.char c :: acc) rest := by
  rw [scanString]
  rw [if_neg hq, if_neg hb, if_neg (by omega)]

theorem scanString_escape (h : scanEscape start ('\\' :: rest) rest = .ok (d, more)) :
    scanString start acc ('\\' :: rest) = scanString start (d :: acc) more := by
  rw [scanString]
  rw [if_neg (by decide), if_pos rfl]
  split
  · next stop hs =>
    rw [h] at hs
    contradiction
  · next d' more' hs =>
    rw [h] at hs
    cases hs
    rfl

/-! Escapes -/

theorem writeHex_four (n : Nat) : ∃ a b c d, Digits.writeHex 4 n = [a, b, c, d] :=
  ⟨_, _, _, _, rfl⟩

theorem scanUnit?_writeHex {n : Nat} (hn : n < 0x10000) (hr : rest ≠ []) :
    scanUnit? (Digits.writeHex 4 n ++ rest) = some (n, rest) := by
  have hread := Digits.readHex?_writeHex 4 n
  obtain ⟨a, b, c, d, h⟩ := writeHex_four n
  have hmod : n % Nat.pow 16 4 = n := Nat.mod_eq_of_lt hn
  rw [h, hmod] at hread
  rw [h]
  have he : rest.isEmpty = false := by simpa using hr
  simp [scanUnit?, hread, he]

theorem ofNat_toNat (c : Char) : CodePoint.ofNat c.toNat = .char c := by
  have hc : c.toNat < 0xd800 ∨ 0xdfff < c.toNat ∧ c.toNat < 0x110000 := c.valid
  unfold CodePoint.ofNat
  rw [if_neg (by omega), Char.ofNat_toNat]

theorem scanEscape_unicode (suffix : List Char) :
    scanEscape start suffix ('u' :: rest) = scanUnicode ('u' :: rest) rest := by
  unfold scanEscape
  simp

theorem scanEscape_unit (hc : c.toNat < 0x10000) (hr : rest ≠ []) (suffix : List Char) :
    scanEscape start suffix ('u' :: (Digits.writeHex 4 c.toNat ++ rest)) = .ok (.char c, rest) := by
  have hv : c.toNat < 0xd800 ∨ 0xdfff < c.toNat ∧ c.toNat < 0x110000 := c.valid
  have hhigh : isHighSurrogate c.toNat = false := by
    simp only [isHighSurrogate, Bool.and_eq_false_iff, decide_eq_false_iff_not]
    omega
  rw [scanEscape_unicode]
  unfold scanUnicode
  rw [scanUnit?_writeHex hc hr]
  simp [hhigh, ofNat_toNat]

theorem scanEscape_pair {high low : Nat} (hhigh : isHighSurrogate high = true)
    (hlow : isLowSurrogate low = true) (hr : rest ≠ []) (suffix : List Char) :
    scanEscape start suffix ('u' :: (Digits.writeHex 4 high ++ escapeUnit low rest)) =
      .ok (ofPair high low, rest) := by
  have hh : high < 0x10000 := by
    simp only [isHighSurrogate, Bool.and_eq_true, decide_eq_true_eq] at hhigh
    omega
  have hl : low < 0x10000 := by
    simp only [isLowSurrogate, Bool.and_eq_true, decide_eq_true_eq] at hlow
    omega
  have hhalf : scanLowHalf (escapeUnit low rest) = .ok (some (low, rest)) := by
    unfold scanLowHalf escapeUnit
    simp only [scanUnit?_writeHex hl hr]
  rw [scanEscape_unicode]
  unfold scanUnicode
  rw [scanUnit?_writeHex hh (by simp [escapeUnit])]
  simp only [hhigh, if_true, hhalf, hlow]

theorem halves_of_char (hc : 0x10000 ≤ c.toNat) :
    isHighSurrogate (0xd800 + (c.toNat - 0x10000) / 0x400) = true ∧
      isLowSurrogate (0xdc00 + (c.toNat - 0x10000) % 0x400) = true ∧
        ofPair (0xd800 + (c.toNat - 0x10000) / 0x400) (0xdc00 + (c.toNat - 0x10000) % 0x400) =
          .char c := by
  have hv : c.toNat < 0xd800 ∨ 0xdfff < c.toNat ∧ c.toNat < 0x110000 := c.valid
  have hpoint := ofNat_toNat c
  generalize c.toNat = n at hc hv hpoint ⊢
  refine ⟨?_, ?_, ?_⟩
  · simp only [isHighSurrogate, Bool.and_eq_true, decide_eq_true_eq]
    omega
  · simp only [isLowSurrogate, Bool.and_eq_true, decide_eq_true_eq]
    omega
  · have hn : 0x10000 + (0xd800 + (n - 0x10000) / 0x400 - 0xd800) * 0x400 +
        (0xdc00 + (n - 0x10000) % 0x400 - 0xdc00) = n := by omega
    unfold ofPair
    rw [hn, hpoint]

theorem scanEscape_short {letter : Char} (h : shortEscape? c = some letter) (suffix : List Char) :
    scanEscape start suffix (letter :: rest) = .ok (.char c, rest) := by
  have hl : letter ≠ 'u' ∧ unescape? letter = some c := by
    unfold shortEscape? at h
    split at h <;> cases h <;> exact ⟨by decide, rfl⟩
  unfold scanEscape
  simp only [if_neg hl.1, hl.2]

theorem ne_of_shortEscape? (h : shortEscape? c = none) : c ≠ '"' ∧ c ≠ '\\' := by
  constructor <;> rintro rfl <;> simp [shortEscape?] at h

/-- The spelling of each character is read back as that character. -/
def ReadBack (escape : Char → List Char → List Char) : Prop :=
  ∀ (start : List Char) (acc : List CodePoint) (c : Char) (rest : List Char), rest ≠ [] →
    scanString start acc (escape c rest) = scanString start (.char c :: acc) rest

theorem readBack_escapeControl : ReadBack escapeControl := by
  intro start acc c rest hr
  unfold escapeControl
  split
  · next letter h => exact scanString_escape (scanEscape_short h _)
  · next h =>
    obtain ⟨hq, hb⟩ := ne_of_shortEscape? h
    split
    · exact scanString_escape (scanEscape_unit (by omega) hr _)
    · exact scanString_plain hq hb (by omega)

theorem readBack_escapeNonAscii : ReadBack escapeNonAscii := by
  intro start acc c rest hr
  unfold escapeNonAscii
  split
  · next letter h => exact scanString_escape (scanEscape_short h _)
  · next h =>
    obtain ⟨hq, hb⟩ := ne_of_shortEscape? h
    split
    · exact scanString_plain hq hb (by omega)
    · split
      · next hc => exact scanString_escape (scanEscape_unit hc hr _)
      · next hc =>
        obtain ⟨hhigh, hlow, hpair⟩ := halves_of_char (c := c) (by omega)
        rw [← hpair]
        exact scanString_escape (scanEscape_pair hhigh hlow hr _)

/-! Whole strings -/

variable {escape : Char → List Char → List Char}

theorem scanString_foldr (he : ReadBack escape) (cs : List Char) :
    scanString start acc ((cs.map CodePoint.char).foldr (escapePoint escape) ('"' :: rest)) =
      .ok (⟨acc.reverse ++ cs.map .char⟩, rest) := by
  induction cs generalizing acc with
  | nil =>
    rw [List.map_nil, List.foldr_nil, scanString_quote, List.append_nil]
  | cons c cs ih =>
    have hne : (cs.map CodePoint.char).foldr (escapePoint escape) ('"' :: rest) ≠ [] := by
      intro h
      have hnone : scanString start acc [] = .ok (⟨acc.reverse ++ cs.map .char⟩, rest) := h ▸ ih
      simp [scanString] at hnone
    rw [List.map_cons, List.foldr_cons]
    change scanString start acc (escape c _) = _
    rw [he start acc c _ hne, ih]
    simp

theorem scanString_quoted (he : ReadBack escape) {s : Text} (hs : s.OfCharacters)
    (rest : List Char) : ∃ body, quoted escape s rest = '"' :: body ∧
      ∀ start, scanString start [] body = .ok (s, rest) := by
  obtain ⟨cs, rfl⟩ := hs
  exact ⟨_, rfl, fun _ => scanString_foldr he cs⟩

theorem quoted_inj (he : ReadBack escape) {s t : Text} (hs : s.OfCharacters)
    (ht : t.OfCharacters) {rest rest' : List Char}
    (h : quoted escape s rest = quoted escape t rest') : s = t ∧ rest = rest' := by
  obtain ⟨body, hb, hscan⟩ := scanString_quoted he hs rest
  obtain ⟨body', hb', hscan'⟩ := scanString_quoted he ht rest'
  rw [hb, hb'] at h
  obtain rfl : body = body' := List.tail_eq_of_cons_eq h
  exact Prod.mk.inj (Except.ok.inj ((hscan []).symm.trans (hscan' [])))

end CanonicalSchema.Json
