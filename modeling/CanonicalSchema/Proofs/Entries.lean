import CanonicalSchema.Entries
import Mathlib.Data.List.Nodup
import Mathlib.Data.List.Perm.Subperm

/-!
Entries without repeated keys are determined by what they hold: look-ups see only which entries
there are, and two tables hold the same entries exactly when one is a permutation of the other.
-/

namespace CanonicalSchema.Entries

variable {κ ν : Type}

@[simp] theorem keys_cons (e : κ × ν) (es : Entries κ ν) : keys (e :: es) = e.1 :: keys es := rfl

@[simp] theorem values_cons (e : κ × ν) (es : Entries κ ν) :
    values (e :: es) = e.2 :: values es := rfl

theorem nodup_of_keys {es : Entries κ ν} (h : es.keys.Nodup) : es.Nodup := h.of_map Prod.fst

theorem keys_perm {es fs : Entries κ ν} (h : es.Perm fs) : es.keys.Perm fs.keys := h.map Prod.fst

theorem values_perm {es fs : Entries κ ν} (h : es.Perm fs) : es.values.Perm fs.values :=
  h.map Prod.snd

theorem eq_of_perm_of_keys {es fs : Entries κ ν} (hp : es.Perm fs) (hk : es.keys = fs.keys)
    (hn : es.keys.Nodup) : es = fs := by
  induction es generalizing fs with
  | nil => exact hp.nil_eq
  | cons e es ih =>
    cases fs with
    | nil => cases hk
    | cons f fs =>
      rw [keys_cons, keys_cons, List.cons.injEq] at hk
      have he : (e.1, f.2) ∈ e :: es := by
        rw [hp.mem_iff, hk.1]
        exact List.mem_cons_self
      rw [keys_cons, List.nodup_cons] at hn
      have heq : e = f := by
        rcases List.mem_cons.1 he with h | h
        · exact Prod.ext hk.1 (congrArg Prod.snd h).symm
        · exact absurd (List.mem_map_of_mem h) hn.1
      subst heq
      rw [ih hp.cons_inv hk.2 hn.2]

/-! Keys that may have several spellings -/

section Spellings

variable [BEq κ] {es : Entries κ ν} {k : κ} {v : ν}

/-- No key equals one before it. -/
def Apart (ks : List κ) : Prop := ks.Pairwise fun j k => (k == j) = false

theorem get?_of_mem_of_apart [ReflBEq κ] (h : Apart es.keys) (hm : (k, v) ∈ es) :
    es.get? k = some v := by
  induction es with
  | nil => contradiction
  | cons e rest ih =>
    obtain ⟨k', v'⟩ := e
    unfold Apart at h
    rw [keys_cons, List.pairwise_cons] at h
    rw [get?_cons]
    rcases List.mem_cons.1 hm with he | hr
    · cases he
      simp
    · rw [h.1 k (List.mem_map_of_mem hr)]
      exact ih h.2 hr

theorem exists_mem_of_get? (h : es.get? k = some v) : ∃ k', (k', v) ∈ es ∧ (k == k') = true := by
  induction es with
  | nil => contradiction
  | cons e rest ih =>
    obtain ⟨k', v'⟩ := e
    rw [get?_cons] at h
    split at h
    · next hk =>
      cases h
      exact ⟨k', List.mem_cons_self, hk⟩
    · obtain ⟨j, hj, hk⟩ := ih h
      exact ⟨j, List.mem_cons_of_mem _ hj, hk⟩

theorem put_of_new (v : ν) (h : ∀ j ∈ es.keys, (k == j) = false) : es.put k v = es ++ [(k, v)] := by
  induction es with
  | nil => rfl
  | cons e rest ih =>
    obtain ⟨k', v'⟩ := e
    rw [keys_cons, List.forall_mem_cons] at h
    simp only [put, h.1, Bool.false_eq_true, if_false, ih h.2]
    rfl

end Spellings

section LookUp

variable [BEq κ] [LawfulBEq κ] {es fs : Entries κ ν} {k : κ} {v : ν}

theorem apart_of_nodup {ks : List κ} (h : ks.Nodup) : Apart ks :=
  h.imp fun hne => beq_eq_false_iff_ne.2 hne.symm

theorem mem_of_get? (h : es.get? k = some v) : (k, v) ∈ es := by
  obtain ⟨k', hm, hk⟩ := exists_mem_of_get? h
  rwa [eq_of_beq hk]

theorem get?_of_mem (hn : es.keys.Nodup) (h : (k, v) ∈ es) : es.get? k = some v :=
  get?_of_mem_of_apart (apart_of_nodup hn) h

theorem get?_eq_some_iff (hn : es.keys.Nodup) : es.get? k = some v ↔ (k, v) ∈ es :=
  ⟨mem_of_get?, get?_of_mem hn⟩

theorem contains_iff : es.contains k = true ↔ k ∈ es.keys := by
  induction es with
  | nil => simp [contains, get?, keys]
  | cons e rest ih =>
    obtain ⟨k', v'⟩ := e
    unfold contains at ih ⊢
    rw [get?_cons, keys_cons, List.mem_cons]
    by_cases hk : k = k'
    · simp [hk]
    · rw [if_neg (by simpa using hk), ih]
      simp [hk]

theorem get?_eq_of_perm (hp : es.Perm fs) (hn : es.keys.Nodup) (k : κ) :
    es.get? k = fs.get? k := by
  have hn' : fs.keys.Nodup := (keys_perm hp).nodup hn
  apply Option.ext
  intro v
  rw [get?_eq_some_iff hn, get?_eq_some_iff hn', hp.mem_iff]

theorem contains_eq_of_perm (hp : es.Perm fs) (k : κ) : es.contains k = fs.contains k := by
  rw [Bool.eq_iff_iff, contains_iff, contains_iff, (keys_perm hp).mem_iff]

variable [BEq ν] [LawfulBEq ν]

theorem sameEntries_iff_perm (hn : es.keys.Nodup) (hn' : fs.keys.Nodup) :
    es.sameEntries fs = true ↔ es.Perm fs := by
  unfold sameEntries
  rw [Bool.and_eq_true, beq_iff_eq, List.all_eq_true]
  constructor
  · rintro ⟨hl, hm⟩
    have hs : es ⊆ fs := fun e he => mem_of_get? (by simpa using hm e he)
    exact ((nodup_of_keys hn).subperm hs).perm_of_length_le (Nat.le_of_eq hl.symm)
  · intro hp
    refine ⟨hp.length_eq, fun e he => ?_⟩
    rw [beq_iff_eq, get?_eq_some_iff hn']
    exact hp.mem_iff.1 he

end LookUp

theorem put_of_get? [BEq κ] [LawfulBEq κ] {es : Entries κ ν} {k : κ} {v : ν}
    (h : es.get? k = some v) : es.put k v = es := by
  induction es with
  | nil => simp [get?] at h
  | cons e rest ih =>
    obtain ⟨k', v'⟩ := e
    rw [get?_cons] at h
    simp only [put]
    split at h
    · next hk =>
      obtain rfl := Option.some.inj h
      rw [if_pos hk]
    · next hk => rw [if_neg hk, ih h]

theorem put_of_not_mem [BEq κ] [LawfulBEq κ] {es : Entries κ ν} {k : κ} (v : ν)
    (h : k ∉ es.keys) : es.put k v = es ++ [(k, v)] :=
  put_of_new v fun _ hj => beq_eq_false_iff_ne.2 fun hk => h (hk ▸ hj)

theorem mem_of_mem_put [BEq κ] {es : Entries κ ν} {k : κ} {v : ν} {e : κ × ν}
    (h : e ∈ es.put k v) : e ∈ es ∨ e.2 = v := by
  induction es with
  | nil =>
    rw [put, List.mem_singleton] at h
    exact Or.inr (h ▸ rfl)
  | cons e' rest ih =>
    simp only [put] at h
    split at h
    · rcases List.mem_cons.1 h with rfl | h
      · exact Or.inr rfl
      · exact Or.inl (List.mem_cons_of_mem _ h)
    · rcases List.mem_cons.1 h with rfl | h
      · exact Or.inl List.mem_cons_self
      · exact (ih h).imp_left (List.mem_cons_of_mem _)

theorem forall_values_merge [BEq κ] {p : ν → Prop} {es more : Entries κ ν}
    (h : ∀ e ∈ es, p e.2) (hm : ∀ e ∈ more, p e.2) : ∀ e ∈ es.merge more, p e.2 := by
  unfold merge
  induction more generalizing es with
  | nil => exact h
  | cons m more ih =>
    rw [List.forall_mem_cons] at hm
    refine ih (fun e he => ?_) hm.2
    rcases mem_of_mem_put he with he | he
    · exact h e he
    · exact he ▸ hm.1

/-! Writing never repeats a key, even where equal keys may be spelt differently. -/

section Writing

variable [BEq κ] [ReflBEq κ]

theorem nodup_keys_put {es : Entries κ ν} (hn : es.keys.Nodup) (k : κ) (v : ν) :
    (es.put k v).keys.Nodup ∧ ∀ j ∈ (es.put k v).keys, j ∈ es.keys ∨ j = k := by
  induction es with
  | nil => simp [put, keys]
  | cons e rest ih =>
    obtain ⟨k', v'⟩ := e
    rw [keys_cons, List.nodup_cons] at hn
    simp only [put]
    split
    · rw [keys_cons, List.nodup_cons, keys_cons]
      exact ⟨hn, fun j hj => Or.inl hj⟩
    · next hk =>
      have hne : k' ≠ k := by
        rintro rfl
        simp at hk
      obtain ⟨hd, hm⟩ := ih hn.2
      rw [keys_cons, List.nodup_cons, keys_cons]
      refine ⟨⟨fun hj => ?_, hd⟩, fun j hj => ?_⟩
      · exact (hm k' hj).elim hn.1 hne
      · rcases List.mem_cons.1 hj with rfl | hj
        · exact Or.inl List.mem_cons_self
        · exact (hm j hj).imp (List.mem_cons_of_mem _) id

theorem nodup_keys_merge {es : Entries κ ν} (hn : es.keys.Nodup) (more : Entries κ ν) :
    (es.merge more).keys.Nodup := by
  unfold merge
  induction more generalizing es with
  | nil => exact hn
  | cons e more ih => exact ih (nodup_keys_put hn e.1 e.2).1

theorem nodup_keys_ofList (es : List (κ × ν)) : (ofList es).keys.Nodup := by
  unfold ofList
  exact nodup_keys_merge (by simp [keys]) es

end Writing

end CanonicalSchema.Entries
