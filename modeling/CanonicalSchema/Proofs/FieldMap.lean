import CanonicalSchema.Proofs.NormalSchema

/-!
Which field maps a schema accepts: those in which every key is the name of its field, no two entries
share a target name, and at most one field is a primary key. What is stored is the map as given.
-/

namespace CanonicalSchema

open Checked

theorem length_filter_le_one_iff {α : Type} {l : List α} {p : α → Bool} (hn : l.Nodup) :
    (l.filter p).length ≤ 1 ↔ ∀ a ∈ l, ∀ b ∈ l, p a = true → p b = true → a = b := by
  constructor
  · intro hl a ha b hb hpa hpb
    have ha' : a ∈ l.filter p := List.mem_filter.2 ⟨ha, hpa⟩
    have hb' : b ∈ l.filter p := List.mem_filter.2 ⟨hb, hpb⟩
    cases h : l.filter p with
    | nil => simp [h] at ha'
    | cons c cs =>
      rw [h, List.length_cons] at hl
      obtain rfl : cs = [] := List.eq_nil_of_length_eq_zero (by omega)
      rw [h, List.mem_singleton] at ha' hb'
      rw [ha', hb']
  · intro h
    have hn' := hn.filter p
    match hl : l.filter p with
    | [] => simp
    | [_] => simp
    | a :: b :: cs =>
      have ha : a ∈ l.filter p := by simp [hl]
      have hb : b ∈ l.filter p := by simp [hl]
      rw [List.mem_filter] at ha hb
      rw [hl, h a ha.1 b hb.1 ha.2 hb.2] at hn'
      simp at hn'

namespace Schema

/-- The entries of a field map agree with their keys and with one another. -/
structure Fitting (fields : Entries Text Field) : Prop where
  key_eq_name : ∀ e ∈ fields, e.1 = .ofString e.2.name
  targets_differ : ∀ e ∈ fields, ∀ e' ∈ fields, e.2.targetName = e'.2.targetName → e = e'
  one_primaryKey : ∀ e ∈ fields, ∀ e' ∈ fields,
    e.2.isPrimaryKey = true → e'.2.isPrimaryKey = true → e = e'

theorem fitting_iff {s : Schema} (hn : s.fields.keys.Nodup) :
    Fitting s.fields ↔ brokenRule? s = none := by
  have hn' := Entries.nodup_of_keys hn
  have ht : (s.fields.values.map Field.targetName).Nodup ↔
      ∀ e ∈ s.fields, ∀ e' ∈ s.fields, e.2.targetName = e'.2.targetName → e = e' := by
    unfold Entries.values
    rw [List.map_map]
    exact List.nodup_map_iff_inj_on hn'
  have hp : (s.fields.values.filter Field.isPrimaryKey).length ≤ 1 ↔ ∀ e ∈ s.fields,
      ∀ e' ∈ s.fields, e.2.isPrimaryKey = true → e'.2.isPrimaryKey = true → e = e' := by
    unfold Entries.values
    rw [List.filter_map, List.length_map]
    exact length_filter_le_one_iff hn'
  rw [brokenRule?_eq_none_iff, ht, hp]
  exact ⟨fun h => ⟨h.key_eq_name, h.targets_differ, h.one_primaryKey⟩,
    fun h => ⟨h.1, h.2.1, h.2.2⟩⟩

end Schema

namespace Draft

variable {d : Draft} {model : String} {given : Entries Key FieldSource}
  {fields : Entries Text Field} {s : Schema}

/-- A draft gives a name and a field map, and nothing is wrong with the rest of it: a target name,
if there is one, is blank or a text, and an index, if there is one, is accepted. A name that holds a
lone surrogate is left out, since no schema has such a name. -/
structure Gives (d : Draft) (model : String) (given : Entries Key FieldSource) : Prop where
  name : d.name = some (.str model)
  name_ne : model ≠ ""
  targetName : ∀ j, d.targetName = some j → j.isBlank = true ∨ ∃ t, j = .str t
  table : d.table = .entries given
  index : ∃ index, d.checkIndex = .accepted index
  others : d.others = []

theorem Gives.isGiven_name (h : d.Gives model given) : isGiven d.name = true := by
  rw [h.name]
  simp [isGiven, Json.isBlank, Text.isEmpty_ofString h.name_ne]

theorem Gives.normalize_targetName (h : d.Gives model given) :
    ∃ t, d.normalize.targetName = some (.str t) := by
  unfold normalize
  rw [h.isGiven_name, Bool.and_true]
  split
  · exact ⟨_, h.name⟩
  · next hg =>
    cases ht : d.targetName with
    | none => simp [ht, isGiven] at hg
    | some j =>
      have hb : j.isBlank ≠ true := by simpa [ht, isGiven] using hg
      obtain ⟨t, rfl⟩ := (h.targetName j ht).resolve_left hb
      exact ⟨t, rfl⟩

theorem Gives.checkAttributes (h : d.Gives model given)
    (hf : List.Forall₂ Schema.ChecksTo given fields) :
    ∃ target index, d.normalize.checkAttributes = .accepted ⟨model, target, fields, index⟩ := by
  obtain ⟨target, htarget⟩ := h.normalize_targetName
  obtain ⟨index, hindex⟩ := h.index
  refine ⟨target, index, checkAttributes_eq_accepted_iff.2 ⟨?_, ?_, ?_, ?_, ?_⟩⟩
  · rw [checkName_eq_accepted_iff, normalize_name]
    exact ⟨h.name, h.name_ne⟩
  · exact (checkTargetName_some htarget).2 rfl
  · rw [normalize_table, h.table]
    exact Schema.checkTable_entries_iff.2 hf
  · rw [normalize_checkIndex, hindex]
  · rw [normalize_others, h.others]

/-- A field map is accepted exactly where its entries fit, and it is stored as it was given. -/
theorem accepts_iff_fitting (hd : d.Gives model given) (hk : given.keys.Nodup)
    (hf : List.Forall₂ Schema.ChecksTo given fields) :
    ((∃ s, d.check = .ok s) ↔ Schema.Fitting fields) ∧
      ∀ s, d.check = .ok s → s.name = model ∧ s.fields = fields := by
  obtain ⟨target, index, ha⟩ := hd.checkAttributes hf
  have hn : fields.keys.Nodup := by
    rw [Schema.keys_of_checksTo hf] at hk
    exact hk.of_map Key.str
  have hs : ∀ s, d.check = .ok s ↔
      s = ⟨model, target, fields, index⟩ ∧ Schema.brokenRule? s = none := by
    intro s
    rw [check_eq_ok_iff, ha, accepted_inj, eq_comm]
  have hfit := Schema.fitting_iff (s := ⟨model, target, fields, index⟩) hn
  constructor
  · rw [hfit]
    constructor
    · rintro ⟨s, h⟩
      obtain ⟨rfl, hrule⟩ := (hs s).1 h
      exact hrule
    · exact fun hrule => ⟨_, (hs _).2 ⟨rfl, hrule⟩⟩
  · intro s h
    obtain ⟨rfl, -⟩ := (hs s).1 h
    exact ⟨rfl, rfl⟩

def swappedFields : Entries Text Field := [
  ("a", ⟨"a", "b", .int, none, false, false, false, false, none, none⟩),
  ("b", ⟨"b", "a", .enum, none, false, false, true, false, none, none⟩),
  ("c", ⟨"c", "c", .id, none, true, false, false, true, none, none⟩)]

def swappedGiven : Entries Key FieldSource := [
  (.str "a", .ready ⟨"a", "b", .int, none, false, false, false, false, none, none⟩),
  (.str "b", .described (.obj [("name", .str "b"), ("target_name", .str "a"),
    ("declared_type", .str "enum")])),
  (.str "c", .described (.obj [("name", .str "c"), ("declared_type", .str "id"),
    ("is_required", .int 1), ("is_primary_key", .str "yes")]))]

def swappedDraft : Draft where
  name := some (.str "Swapped")
  targetName := none
  tableLabel := "fields"
  table := .entries swappedGiven
  index := none
  others := []

theorem accepts_swapped : ∃ s, swappedDraft.check = .ok s ∧ s.fields = swappedFields := by
  have hd : swappedDraft.Gives "Swapped" swappedGiven :=
    ⟨rfl, by decide, nofun, rfl, ⟨.empty, rfl⟩, rfl⟩
  have hf : List.Forall₂ Schema.ChecksTo swappedGiven swappedFields :=
    .cons ⟨rfl, rfl⟩ (.cons ⟨rfl, by decide +kernel⟩ (.cons ⟨rfl, by decide +kernel⟩ .nil))
  have h := accepts_iff_fitting hd (by decide) hf
  obtain ⟨s, hs⟩ := h.1.2 ⟨by decide, by decide, by decide⟩
  exact ⟨s, hs, (h.2 s hs).2⟩

end Draft

end CanonicalSchema
