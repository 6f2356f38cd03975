import CanonicalSchema.Text.Surrogate

/-!
Texts without surrogates, which are exactly those that are written as strings, and the order of
texts, which is total.
-/

namespace CanonicalSchema.Text

def OfCharacters (t : Text) : Prop := ∃ cs, t = ofChars cs

@[simp] theorem ofCharacters_ofString (s : String) : (ofString s).OfCharacters := ⟨_, rfl⟩

theorem ofCharacters_iff {t : Text} : t.OfCharacters ↔ ∀ p ∈ t.points, ∃ c, p = .char c := by
  constructor
  · rintro ⟨cs, rfl⟩ p hp
    obtain ⟨c, -, rfl⟩ := List.mem_map.1 hp
    exact ⟨c, rfl⟩
  · obtain ⟨points⟩ := t
    intro h
    induction points with
    | nil => exact ⟨[], rfl⟩
    | cons p ps ih =>
      rw [List.forall_mem_cons] at h
      obtain ⟨⟨c, rfl⟩, hps⟩ := h
      obtain ⟨cs, hcs⟩ := ih hps
      refine ⟨c :: cs, ?_⟩
      cases hcs
      rfl

@[simp] theorem ofCharacters_append_iff {s t : Text} :
    (s ++ t).OfCharacters ↔ s.OfCharacters ∧ t.OfCharacters := by
  change OfCharacters ⟨s.points ++ t.points⟩ ↔ _
  simp only [ofCharacters_iff, List.forall_mem_append]

theorem isEmpty_ofString {s : String} (h : s ≠ "") : (ofString s).isEmpty = false := by
  simpa [isEmpty, ofString, ofChars] using h

theorem chars?_eq_some_iff {t : Text} {cs : List Char} : t.chars? = some cs ↔ t = ofChars cs := by
  constructor
  · obtain ⟨points⟩ := t
    intro h
    unfold chars? at h
    unfold ofChars
    congr 1
    induction points generalizing cs with
    | nil =>
      cases h
      rfl
    | cons p ps ih =>
      cases p with
      | surrogate offset => simp [CodePoint.char?] at h
      | char c =>
        cases hps : ps.mapM CodePoint.char? with
        | none => simp [CodePoint.char?, hps] at h
        | some cs' =>
          simp only [List.mapM_cons, CodePoint.char?, hps] at h
          cases h
          rw [List.map_cons, ih hps]
  · rintro rfl
    exact chars?_ofChars cs

theorem string?_eq_some_iff {t : Text} {s : String} : t.string? = some s ↔ t = ofString s := by
  unfold string? ofString
  rw [Option.map_eq_some_iff]
  constructor
  · rintro ⟨cs, h, rfl⟩
    rw [String.toList_ofList]
    exact chars?_eq_some_iff.1 h
  · intro h
    exact ⟨_, chars?_eq_some_iff.2 h, String.ofList_toList⟩

theorem OfCharacters.encodable {t : Text} (h : t.OfCharacters) : ∃ s, t.encodable = .ok s := by
  obtain ⟨cs, rfl⟩ := h
  refine ⟨String.ofList cs, ?_⟩
  unfold Text.encodable string?
  rw [chars?_ofChars]
  rfl

/-! Order -/

theorem toNat_inj {p q : CodePoint} (h : p.toNat = q.toNat) : p = q := by
  have hchar (c : Char) (offset : Fin 0x800) : c.toNat ≠ 0xd800 + offset.val := by
    have hv : c.toNat < 0xd800 ∨ 0xdfff < c.toNat ∧ c.toNat < 0x110000 := c.valid
    have ho : offset.val < 0x800 := offset.isLt
    omega
  cases p with
  | char c =>
    cases q with
    | char d => rw [Char.toNat_inj.1 h]
    | surrogate offset => exact absurd h (hchar c offset)
  | surrogate offset =>
    cases q with
    | char d => exact absurd h.symm (hchar d offset)
    | surrogate offset' =>
      have ho : offset = offset' := Fin.ext (Nat.add_left_cancel h)
      rw [ho]

theorem lePoints_cons_iff {p q : CodePoint} {ps qs : List CodePoint} :
    lePoints (p :: ps) (q :: qs) = true ↔
      p.toNat < q.toNat ∨ p = q ∧ lePoints ps qs = true := by
  simp [lePoints]

theorem lePoints_total (ps qs : List CodePoint) :
    lePoints ps qs = true ∨ lePoints qs ps = true := by
  induction ps generalizing qs with
  | nil => exact Or.inl rfl
  | cons p ps ih =>
    cases qs with
    | nil => exact Or.inr rfl
    | cons q qs =>
      rw [lePoints_cons_iff, lePoints_cons_iff]
      rcases Nat.lt_trichotomy p.toNat q.toNat with hlt | heq | hgt
      · exact Or.inl (Or.inl hlt)
      · rcases ih qs with h | h
        · exact Or.inl (Or.inr ⟨toNat_inj heq, h⟩)
        · exact Or.inr (Or.inr ⟨toNat_inj heq.symm, h⟩)
      · exact Or.inr (Or.inl hgt)

theorem lePoints_trans {ps qs rs : List CodePoint} (h : lePoints ps qs = true)
    (h' : lePoints qs rs = true) : lePoints ps rs = true := by
  induction ps generalizing qs rs with
  | nil => rfl
  | cons p ps ih =>
    cases qs with
    | nil => contradiction
    | cons q qs =>
      cases rs with
      | nil => contradiction
      | cons r rs =>
        rw [lePoints_cons_iff] at h h' ⊢
        rcases h with hpq | ⟨rfl, h⟩
        · rcases h' with hqr | ⟨rfl, -⟩
          · exact Or.inl (Nat.lt_trans hpq hqr)
          · exact Or.inl hpq
        · exact h'.imp id fun hr => ⟨hr.1, ih h hr.2⟩

theorem lePoints_antisymm {ps qs : List CodePoint} (h : lePoints ps qs = true)
    (h' : lePoints qs ps = true) : ps = qs := by
  induction ps generalizing qs with
  | nil =>
    cases qs with
    | nil => rfl
    | cons q qs => contradiction
  | cons p ps ih =>
    cases qs with
    | nil => contradiction
    | cons q qs =>
      rw [lePoints_cons_iff] at h h'
      rcases h with hlt | ⟨rfl, h⟩
      · rcases h' with hgt | ⟨rfl, -⟩ <;> omega
      · rcases h' with hgt | ⟨-, h'⟩
        · omega
        · rw [ih h h']

theorem le_refl (s : Text) : le s s = true := (lePoints_total s.points s.points).elim id id

theorem le_total (s t : Text) : le s t = true ∨ le t s = true := lePoints_total s.points t.points

theorem le_trans {s t u : Text} (h : le s t = true) (h' : le t u = true) : le s u = true :=
  lePoints_trans h h'

theorem le_antisymm {s t : Text} (h : le s t = true) (h' : le t s = true) : s = t := by
  obtain ⟨ps⟩ := s
  obtain ⟨qs⟩ := t
  exact congrArg mk (lePoints_antisymm h h')

theorem not_le_trans {s t u : Text} (h : le t s = false) (h' : le u t = false) :
    le u s = false := by
  rw [← Bool.not_eq_true] at *
  intro hus
  exact h' (le_trans hus ((le_total s t).resolve_right h))

end CanonicalSchema.Text
