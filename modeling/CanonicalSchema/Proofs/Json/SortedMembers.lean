import CanonicalSchema.Proofs.Entries
import CanonicalSchema.Proofs.Json.CompactText

/-!
Sorting the members of objects loses their order and nothing else: two objects that were written
under the same labels, each once and in one order, are told apart by what they are sorted to.
-/

namespace CanonicalSchema.Json

variable {v w : Json}

theorem sortedItems_eq_map (vs : List Json) : sortedItems vs = vs.map sorted := by
  induction vs with
  | nil => rfl
  | cons v vs ih => rw [sortedItems, ih, List.map_cons]

theorem sortedMembers_eq_map (ms : List (Text × Json)) :
    sortedMembers ms = ms.map fun m => (m.1, sorted m.2) := by
  induction ms with
  | nil => rfl
  | cons m ms ih => rw [sortedMembers, ih, List.map_cons]

theorem sorted_arr (vs : List Json) : sorted (arr vs) = arr (vs.map sorted) := by
  rw [sorted, sortedItems_eq_map]

theorem sorted_obj (ms : List (Text × Json)) :
    ∃ ns, sorted (obj ms) = obj ns ∧ ns.Perm (ms.map fun m => (m.1, sorted m.2)) := by
  rw [sorted, sortedMembers_eq_map]
  exact ⟨_, rfl, List.mergeSort_perm _ _⟩

theorem sorted_obj_ne_null (ms : List (Text × Json)) : sorted (obj ms) ≠ null := by
  obtain ⟨ns, hs, -⟩ := sorted_obj ms
  rw [hs]
  exact Json.noConfusion

theorem isDistinctive_sorted (h : v.Everywhere IsDistinctive) :
    (sorted v).Everywhere IsDistinctive := by
  induction h with
  | @node j here below ih =>
    cases j with
    | arr vs =>
      rw [sorted_arr]
      refine everywhere_arr_iff.2 ⟨⟨id, by simp [texts]⟩, ?_⟩
      exact List.forall_mem_map.2 ih
    | obj ms =>
      obtain ⟨ns, hs, hp⟩ := sorted_obj ms
      rw [hs]
      have hmem : ∀ n ∈ ns, ∃ m ∈ ms, (m.1, sorted m.2) = n :=
        fun n hn => List.mem_map.1 (hp.mem_iff.1 hn)
      refine everywhere_obj_iff.2 ⟨⟨id, ?_⟩, ?_⟩
      · intro t ht
        obtain ⟨n, hn, rfl⟩ := List.mem_map.1 ht
        obtain ⟨m, hm, rfl⟩ := hmem n hn
        exact here.texts m.1 (List.mem_map.2 ⟨m, hm, rfl⟩)
      · intro n hn
        obtain ⟨m, hm, rfl⟩ := hmem n hn
        exact ih _ (List.mem_map_of_mem hm)
    | _ => exact .node here below

theorem canonicalText_inj (hv : v.Everywhere IsDistinctive) (hw : w.Everywhere IsDistinctive)
    (h : canonicalText v = canonicalText w) : sorted v = sorted w := by
  unfold canonicalText at h
  apply compact_inj (isDistinctive_sorted hv) (isDistinctive_sorted hw)
  have hl := congrArg String.toList h
  rwa [String.toList_ofList, String.toList_ofList] at hl

theorem sorted_obj_inj {ms ns : Entries Text Json} (hk : ms.keys = ns.keys) (hn : ms.keys.Nodup)
    (h : sorted (obj ms) = sorted (obj ns)) : ms.values.map sorted = ns.values.map sorted := by
  obtain ⟨ms', hs, hp⟩ := sorted_obj ms
  obtain ⟨ns', hs', hp'⟩ := sorted_obj ns
  rw [hs, hs'] at h
  obtain rfl : ms' = ns' := obj.inj h
  have hkeys (es : Entries Text Json) :
      Entries.keys (es.map fun m => (m.1, sorted m.2)) = es.keys := by
    simp [Entries.keys]
  have hvalues (es : Entries Text Json) :
      Entries.values (es.map fun m => (m.1, sorted m.2)) = es.values.map sorted := by
    unfold Entries.values
    rw [List.map_map, List.map_map]
    rfl
  rw [← hvalues, ← hvalues]
  apply congrArg
  apply Entries.eq_of_perm_of_keys (hp.symm.trans hp')
  · rw [hkeys, hkeys, hk]
  · rw [hkeys]
    exact hn

end CanonicalSchema.Json
