import CanonicalSchema.Proofs.Json.ReadTrees
import CanonicalSchema.Value.Literal

/-!
Which values can be put into words: those whose integers are short and whose levels, scalars
included, fit on the stack.
-/

namespace CanonicalSchema.Json

/-- The value has so many levels at most, that of its scalars included. -/
inductive LevelsWithin : Nat → Json → Prop
  | node {levels : Nat} {j : Json} (h : ∀ v ∈ j.parts, LevelsWithin levels v) :
      LevelsWithin (levels + 1) j

/-- All integers of the value are short, and the stack has room for its levels. -/
structure IsWordable (depth : Depth) (j : Json) : Prop where
  integers : j.Everywhere HasShortInteger
  levels : j.LevelsWithin depth.limit

variable {levels : Nat} {j : Json}

theorem levelsWithin_succ_iff :
    LevelsWithin (levels + 1) j ↔ ∀ v ∈ j.parts, LevelsWithin levels v := by
  constructor
  · rintro ⟨h⟩
    exact h
  · exact .node

theorem not_levelsWithin_zero : ¬ LevelsWithin 0 j := nofun

/-! The first obstacle -/

theorem wordingFaultOfItems?_eq_none_iff {vs : List Json} :
    wordingFaultOfItems? levels vs = none ↔ ∀ v ∈ vs, wordingFaultWithin? levels v = none := by
  induction vs with
  | nil => simp [wordingFaultOfItems?]
  | cons v vs ih => simp [wordingFaultOfItems?, ih]

theorem wordingFaultOfMembers?_eq_none_iff {ms : List (Text × Json)} :
    wordingFaultOfMembers? levels ms = none ↔
      ∀ m ∈ ms, wordingFaultWithin? levels m.2 = none := by
  induction ms with
  | nil => simp [wordingFaultOfMembers?]
  | cons m ms ih => simp [wordingFaultOfMembers?, ih]

theorem wordingFaultWithin?_eq_none_iff :
    wordingFaultWithin? levels j = none ↔ j.Everywhere HasShortInteger ∧ j.LevelsWithin levels := by
  induction levels generalizing j with
  | zero => simp [wordingFaultWithin?, not_levelsWithin_zero]
  | succ levels ih =>
    rw [levelsWithin_succ_iff]
    cases j with
    | int n =>
      have hint : HasShortInteger (int n) ↔ IsShortInteger n :=
        ⟨fun h => h n rfl, fun h m hm => by cases hm; exact h⟩
      simp [wordingFaultWithin?, parts, hint]
    | arr items =>
      have harr : HasShortInteger (arr items) := nofun
      simp [wordingFaultWithin?, wordingFaultOfItems?_eq_none_iff, ih, parts, harr, forall_and]
    | obj members =>
      have hobj : HasShortInteger (obj members) := nofun
      rw [wordingFaultWithin?, wordingFaultOfMembers?_eq_none_iff, everywhere_obj_iff, parts,
        List.forall_mem_map]
      simp [ih, hobj, forall_and]
    | float x =>
      have hfloat : (float x).Everywhere HasShortInteger := (everywhere_leaf_iff rfl).2 nofun
      simp [wordingFaultWithin?, parts, hfloat]
    | null | bool _ | str _ => simp [wordingFaultWithin?, parts, HasShortInteger]

theorem wordingFault?_eq_none_iff {depth : Depth} :
    j.wordingFault? depth = none ↔ j.IsWordable depth :=
  wordingFaultWithin?_eq_none_iff.trans ⟨fun h => ⟨h.1, h.2⟩, fun h => ⟨h.1, h.2⟩⟩

theorem exists_of_tooDeep_items {vs : List Json}
    (h : wordingFaultOfItems? levels vs = some .tooDeep) :
    ∃ v ∈ vs, wordingFaultWithin? levels v = some .tooDeep := by
  induction vs with
  | nil => cases h
  | cons v vs ih =>
    rw [wordingFaultOfItems?, Option.or_eq_some_iff] at h
    rcases h with h | ⟨-, h⟩
    · exact ⟨v, List.mem_cons_self, h⟩
    · obtain ⟨w, hw, hdeep⟩ := ih h
      exact ⟨w, List.mem_cons_of_mem v hw, hdeep⟩

theorem exists_of_tooDeep_members {ms : List (Text × Json)}
    (h : wordingFaultOfMembers? levels ms = some .tooDeep) :
    ∃ m ∈ ms, wordingFaultWithin? levels m.2 = some .tooDeep := by
  induction ms with
  | nil => cases h
  | cons m ms ih =>
    rw [wordingFaultOfMembers?, Option.or_eq_some_iff] at h
    rcases h with h | ⟨-, h⟩
    · exact ⟨m, List.mem_cons_self, h⟩
    · obtain ⟨n, hn, hdeep⟩ := ih h
      exact ⟨n, List.mem_cons_of_mem m hn, hdeep⟩

/-- The stack is used up only by a value that has too many levels for it. -/
theorem not_levelsWithin_of_tooDeep (h : wordingFaultWithin? levels j = some .tooDeep) :
    ¬ j.LevelsWithin levels := by
  induction levels generalizing j with
  | zero => exact not_levelsWithin_zero
  | succ levels ih =>
    rw [levelsWithin_succ_iff]
    intro hlevels
    cases j with
    | int n =>
      rw [wordingFaultWithin?] at h
      split at h <;> cases h
    | arr items =>
      obtain ⟨v, hv, hdeep⟩ := exists_of_tooDeep_items h
      exact ih hdeep (hlevels v hv)
    | obj members =>
      obtain ⟨m, hm, hdeep⟩ := exists_of_tooDeep_members h
      exact ih hdeep (hlevels m.2 (List.mem_map_of_mem hm))
    | _ => cases h

theorem LevelsWithin.mono {levels' : Nat} (h : LevelsWithin levels j) (hl : levels ≤ levels') :
    LevelsWithin levels' j := by
  induction h generalizing levels' with
  | node _ ih =>
    obtain ⟨n, rfl⟩ := Nat.exists_eq_add_of_le' (Nat.le_trans (Nat.le_add_left 1 _) hl)
    exact .node fun v hv => ih v hv (Nat.le_of_succ_le_succ hl)

/-! Values with words -/

/-- Of a value that is read the containers fit on the stack, and a scalar in the innermost of them
takes up one level more. -/
theorem isInherited_wordable : IsInherited fun levels v =>
    v.Everywhere HasShortInteger ∧ v.LevelsWithin (levels + 1) where
  scalar {_ _ v} h levels := by
    obtain ⟨hleaf, hshort⟩ := shortInteger_of_scanValue h
    have hparts : v.parts = [] := by
      cases v with
      | arr _ | obj _ => exact absurd trivial hleaf
      | _ => rfl
    exact ⟨(everywhere_leaf_iff hparts).2 hshort, .node (by simp [hparts])⟩
  array h := ⟨everywhere_arr_iff.2 ⟨nofun, fun v hv => (h v hv).1⟩, .node fun v hv => (h v hv).2⟩
  object h := ⟨everywhere_obj_iff.2 ⟨nofun, fun m hm => (h.values m hm).1⟩,
    .node (List.forall_mem_map.2 fun m hm => (h.values m hm).2)⟩

theorem isWordable_of_read {reading depth : Depth} {text : List Char}
    (hroom : reading.limit < depth.limit) (h : read reading text = .ok j) : j.IsWordable depth := by
  obtain ⟨hshort, hlevels⟩ := isInherited_wordable.read h
  exact ⟨hshort, hlevels.mono hroom⟩

theorem isWordable_str {depth : Depth} (t : Text) : (str t).IsWordable depth := by
  obtain ⟨n, hn⟩ := Nat.exists_eq_succ_of_ne_zero (Nat.ne_zero_of_lt depth.limit_pos)
  rw [← wordingFault?_eq_none_iff, wordingFault?, hn]
  rfl

/-! Values without words -/

/-- The least integer of one digit more than go into words. -/
@[irreducible] def leastLong : Nat := Nat.pow 10 integerLimit

theorem not_isShortInteger_leastLong : ¬ IsShortInteger leastLong := by
  obtain ⟨k, hk⟩ : ∃ k, integerLimit = k + 1 := ⟨4299, rfl⟩
  rw [IsShortInteger, Int.natAbs_natCast]
  delta leastLong
  rw [hk, Digits.length_write_le_iff]
  exact Nat.lt_irrefl _

theorem not_isWordable_leastLong (depth : Depth) : ¬ (int leastLong).IsWordable depth :=
  fun h => not_isShortInteger_leastLong (h.integers.here _ rfl)

def nested : Nat → Json
  | 0 => null
  | n + 1 => arr [nested n]

theorem wordingFaultWithin?_nested (n : Nat) :
    wordingFaultWithin? n (nested n) = some .tooDeep := by
  induction n with
  | zero => rfl
  | succ n ih => simp [nested, wordingFaultWithin?, wordingFaultOfItems?, ih]

theorem not_isWordable_nested (depth : Depth) : ¬ (nested depth.limit).IsWordable depth :=
  fun h => not_levelsWithin_of_tooDeep (wordingFaultWithin?_nested depth.limit) h.levels

end CanonicalSchema.Json
