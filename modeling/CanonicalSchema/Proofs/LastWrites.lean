import CanonicalSchema.Proofs.Entries
import Mathlib.Data.List.Induction

/-!
What a sequence of writes leaves: every key that was written, in the order of the first writes,
with the value that was written to it last. Equal keys need not be spelt alike; that equality is
an equivalence is all that is asked of it.
-/

namespace CanonicalSchema.Entries

variable {κ ν : Type} [BEq κ]

def lastWritten (writes : Entries κ ν) (k : κ) : Option ν := get? writes.reverse k

def lastWrites (writes : Entries κ ν) : Entries κ ν :=
  writes.keys.eraseDups.filterMap fun k => (lastWritten writes k).map (k, ·)

theorem ofList_append (ws : Entries κ ν) (w : κ × ν) :
    ofList (ws ++ [w]) = (ofList ws).put w.1 w.2 := by
  unfold ofList merge
  rw [List.foldl_append]
  rfl

theorem lastWritten_append (ws : Entries κ ν) (w : κ × ν) (k : κ) :
    lastWritten (ws ++ [w]) k = if k == w.1 then some w.2 else lastWritten ws k := by
  unfold lastWritten
  rw [List.reverse_append]
  rfl

/-! The keys -/

theorem keys_put_eq (es : Entries κ ν) (k : κ) (v : ν) :
    (es.put k v).keys = if es.keys.any (k == ·) then es.keys else es.keys ++ [k] := by
  induction es with
  | nil => rfl
  | cons e rest ih =>
    obtain ⟨k', v'⟩ := e
    simp only [put]
    by_cases hk : k == k'
    · simp [hk]
    · simp only [hk, Bool.false_eq_true, if_false, keys_cons, ih, List.any_cons, Bool.false_or]
      split <;> rfl

theorem eraseDups_loop_append (ks seen : List κ) (k : κ) :
    List.eraseDupsBy.loop (· == ·) (ks ++ [k]) seen =
      if (List.eraseDupsBy.loop (· == ·) ks seen).any (k == ·) then
        List.eraseDupsBy.loop (· == ·) ks seen
      else List.eraseDupsBy.loop (· == ·) ks seen ++ [k] := by
  induction ks generalizing seen with
  | nil =>
    simp only [List.nil_append, List.eraseDupsBy.loop, List.any_reverse]
    cases seen.any (k == ·) <;> simp
  | cons j ks ih =>
    simp only [List.cons_append, List.eraseDupsBy.loop]
    rcases Bool.eq_false_or_eq_true (seen.any (j == ·)) with hs | hs <;> simp only [hs, ih]

theorem eraseDups_append_singleton (ks : List κ) (k : κ) :
    (ks ++ [k]).eraseDups =
      if ks.eraseDups.any (k == ·) then ks.eraseDups else ks.eraseDups ++ [k] :=
  eraseDups_loop_append ks [] k

theorem keys_ofList (ws : Entries κ ν) : (ofList ws).keys = ws.keys.eraseDups := by
  induction ws using List.reverseRecOn with
  | nil => rfl
  | append_singleton ws w ih =>
    have hk : keys (ws ++ [w]) = keys ws ++ [w.1] := by
      unfold keys
      rw [List.map_append]
      rfl
    rw [ofList_append, keys_put_eq, ih, hk, eraseDups_append_singleton]

theorem apart_eraseDups (ks : List κ) : Apart ks.eraseDups := by
  induction ks using List.reverseRecOn with
  | nil => exact List.Pairwise.nil
  | append_singleton ks k ih =>
    rw [eraseDups_append_singleton]
    split
    · exact ih
    · next h =>
      unfold Apart
      rw [List.pairwise_append]
      refine ⟨ih, List.pairwise_singleton _ _, fun j hj k' hk' => ?_⟩
      rw [List.mem_singleton.1 hk']
      simp only [List.any_eq_true, not_exists, not_and, Bool.not_eq_true] at h
      exact h j hj

theorem apart_ofList (ws : Entries κ ν) : Apart (ofList ws).keys := by
  rw [keys_ofList]
  exact apart_eraseDups _

/-! Entries whose keys are apart -/

theorem ofList_of_apart {es : Entries κ ν} (h : Apart es.keys) : ofList es = es := by
  induction es using List.reverseRecOn with
  | nil => rfl
  | append_singleton es e ih =>
    unfold Apart keys at h
    rw [List.map_append, List.pairwise_append] at h
    rw [ofList_append, ih h.1]
    exact put_of_new e.2 fun j hj => h.2.2 j hj e.1 List.mem_cons_self

theorem eq_filterMap_get? [ReflBEq κ] {es : Entries κ ν} (h : Apart es.keys) :
    es = es.keys.filterMap fun k => (es.get? k).map (k, ·) := by
  induction es with
  | nil => rfl
  | cons e rest ih =>
    obtain ⟨k, v⟩ := e
    unfold Apart at h
    rw [keys_cons, List.pairwise_cons] at h
    have hhead : get? ((k, v) :: rest) k = some v := by simp [get?_cons]
    have hrest : ∀ j ∈ keys rest, (get? ((k, v) :: rest) j).map (j, ·) =
        (get? rest j).map (j, ·) := by
      intro j hj
      rw [get?_cons, h.1 j hj]
      rfl
    rw [keys_cons, List.filterMap_cons, hhead, List.filterMap_congr hrest, ← ih h.2]
    rfl

/-! The values -/

variable [EquivBEq κ]

theorem get?_put (es : Entries κ ν) (j k : κ) (v : ν) :
    (es.put k v).get? j = if j == k then some v else es.get? j := by
  induction es with
  | nil => rfl
  | cons e rest ih =>
    obtain ⟨k', v'⟩ := e
    simp only [put]
    by_cases hk : k == k'
    · rw [if_pos hk, get?_cons, get?_cons, BEq.congr_right hk]
      split <;> rfl
    · rw [if_neg hk, get?_cons, ih, get?_cons]
      by_cases hj : j == k'
      · have hjk : ¬ (j == k) = true := fun h => hk (BEq.trans (BEq.symm h) hj)
        rw [if_pos hj, if_neg hjk, if_pos hj]
      · rw [if_neg hj, if_neg hj]

theorem get?_ofList (ws : Entries κ ν) (k : κ) : (ofList ws).get? k = lastWritten ws k := by
  induction ws using List.reverseRecOn with
  | nil => rfl
  | append_singleton ws w ih => rw [ofList_append, get?_put, ih, lastWritten_append]

theorem ofList_eq_lastWrites (ws : Entries κ ν) : ofList ws = lastWrites ws := by
  rw [eq_filterMap_get? (apart_ofList ws), keys_ofList]
  unfold lastWrites
  simp only [get?_ofList]

/-- Tables that answer every look-up alike hold the same entries, if the keys of one of them have no
other spelling. -/
theorem perm_of_get?_eq {es fs : Entries κ ν} (he : Apart es.keys) (hf : Apart fs.keys)
    (hget : ∀ k, es.get? k = fs.get? k) (hk : ∀ k ∈ es.keys, ∀ j, (j == k) = true → j = k) :
    es.Perm fs := by
  have hnodup {gs : Entries κ ν} (hg : Apart gs.keys) : gs.Nodup :=
    nodup_of_keys (hg.imp fun hne h => by simp [h] at hne)
  rw [List.perm_ext_iff_of_nodup (hnodup he) (hnodup hf)]
  rintro ⟨k, v⟩
  constructor
  · intro hm
    obtain ⟨j, hj, hkj⟩ := exists_mem_of_get? ((hget k).symm.trans (get?_of_mem_of_apart he hm))
    rwa [hk k (List.mem_map_of_mem hm) j (BEq.symm hkj)] at hj
  · intro hm
    obtain ⟨j, hj, hkj⟩ := exists_mem_of_get? ((hget k).trans (get?_of_mem_of_apart hf hm))
    rwa [hk j (List.mem_map_of_mem hj) k hkj]

end CanonicalSchema.Entries
