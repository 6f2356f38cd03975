import CanonicalSchema.Proofs.CanonicalOrder
import CanonicalSchema.Proofs.WellFormed

/-!
Schemas that differ only in the order in which their fields were given. For well-formed schemas
this is what equality means, and their fields have the same canonical order.
-/

namespace CanonicalSchema.Schema

variable {s t : Schema}

namespace WellFormed

theorem key_eq_name (h : s.WellFormed) {e : Text × Field} (he : e ∈ s.fields) :
    e.1 = .ofString e.2.name :=
  keys_eq_names_iff.1 h.keys_eq_names e he

theorem names_nodup (h : s.WellFormed) : (s.fields.values.map Field.name).Nodup := by
  have hk := h.keys_nodup
  rw [h.keys_eq_names] at hk
  have hm : (s.fields.values.map fun f => Text.ofString f.name) =
      (s.fields.values.map Field.name).map Text.ofString := by
    rw [List.map_map]
    rfl
  exact (hm ▸ hk).of_map Text.ofString

theorem mem_values_iff (h : s.WellFormed) {f : Field} :
    f ∈ s.fields.values ↔ (Text.ofString f.name, f) ∈ s.fields := by
  constructor
  · intro hf
    obtain ⟨e, he, rfl⟩ := List.mem_map.1 hf
    rw [← h.key_eq_name he]
    exact he
  · exact fun hf => List.mem_map.2 ⟨_, hf, rfl⟩

theorem fields_eq (h : s.WellFormed) :
    s.fields = s.fields.values.map fun f => (Text.ofString f.name, f) := by
  have hid : s.fields.map id = s.fields.map fun e => (Text.ofString e.2.name, e.2) :=
    List.map_congr_left fun e he => Prod.ext (h.key_eq_name he) rfl
  rw [List.map_id] at hid
  unfold Entries.values
  rw [List.map_map]
  exact hid

theorem get?_eq_some_iff (h : s.WellFormed) {n : String} {f : Field} :
    s.fields.get? (.ofString n) = some f ↔ f ∈ s.fields.values ∧ f.name = n := by
  rw [Entries.get?_eq_some_iff h.keys_nodup, h.mem_values_iff]
  constructor
  · intro hf
    have hn := h.key_eq_name hf
    rw [Text.ofString_inj] at hn
    exact ⟨hn ▸ hf, hn.symm⟩
  · rintro ⟨hf, rfl⟩
    exact hf

end WellFormed

theorem mem_sortedFields_iff {f : Field} : f ∈ s.sortedFields ↔ f ∈ s.fields.values :=
  (Field.sort_perm s.fields.values).mem_iff

theorem mem_fieldNames_iff (h : s.WellFormed) {n : String} :
    n ∈ s.fieldNames ↔ s.fields.contains (.ofString n) = true := by
  unfold fieldNames Entries.contains
  rw [List.mem_map, Option.isSome_iff_exists]
  simp only [h.get?_eq_some_iff, mem_sortedFields_iff]

theorem name_mem_fieldNames {e : Text × Field} (he : e ∈ s.fields) : e.2.name ∈ s.fieldNames :=
  List.mem_map_of_mem (mem_sortedFields_iff.2 (List.mem_map_of_mem he))

/-- The same but for the order of the fields. -/
structure Reordered (s t : Schema) : Prop where
  name : s.name = t.name
  targetName : s.targetName = t.targetName
  fields : s.fields.Perm t.fields
  index : s.index = t.index

namespace Reordered

theorem values (h : s.Reordered t) : s.fields.values.Perm t.fields.values :=
  Entries.values_perm h.fields

theorem wellFormed (h : s.Reordered t) (hs : s.WellFormed) : t.WellFormed where
  keys_eq_names :=
    keys_eq_names_iff.2 fun _ he => hs.key_eq_name (h.fields.mem_iff.2 he)
  keys_nodup := (Entries.keys_perm h.fields).nodup hs.keys_nodup
  targets_nodup := (h.values.map Field.targetName).nodup hs.targets_nodup
  primaryKeys_le_one := by
    rw [← (h.values.filter Field.isPrimaryKey).length_eq]
    exact hs.primaryKeys_le_one

theorem sortedFields_eq (h : s.Reordered t) (hs : s.WellFormed) :
    s.sortedFields = t.sortedFields :=
  Field.sort_eq_of_perm h.values hs.names_nodup

theorem contains_eq (h : s.Reordered t) (k : Text) : s.fields.contains k = t.fields.contains k :=
  Entries.contains_eq_of_perm h.fields k

end Reordered

theorem same_iff_reordered (hs : s.WellFormed) (ht : t.WellFormed) :
    s.same t = true ↔ s.Reordered t := by
  unfold same
  simp only [Bool.and_eq_true, beq_iff_eq, Entries.sameEntries_iff_perm hs.keys_nodup ht.keys_nodup]
  constructor
  · rintro ⟨⟨⟨hn, ht⟩, hf⟩, hi⟩
    exact ⟨hn, ht, hf, hi⟩
  · intro h
    exact ⟨⟨⟨h.name, h.targetName⟩, h.fields⟩, h.index⟩

end CanonicalSchema.Schema
