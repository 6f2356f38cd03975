import CanonicalSchema.Proofs.Construction
import CanonicalSchema.Proofs.Json.Tree
import CanonicalSchema.Proofs.NormalField

/-!
Schemas in normal form: well-formed, with names, and with fields in normal form. Every schema that
comes from JSON is in normal form, and a schema in normal form is accepted as itself.
-/

namespace CanonicalSchema

open Checked

/-- A ready field was accepted from some description. -/
def FieldSource.FromJson : FieldSource → Prop
  | described _ => True
  | ready f => ∃ j, Field.check j = accepted f

theorem FieldSource.normal_of_check {source : FieldSource} {f : Field} (hs : source.FromJson)
    (h : source.check = accepted f) : f.Normal := by
  cases source with
  | described j => exact Field.normal_of_check h
  | ready f' =>
    obtain ⟨j, hj⟩ := hs
    cases h
    exact Field.normal_of_check hj

theorem Schema.normal_of_checksTo {es : Entries Key FieldSource} {fields : Entries Text Field}
    (hs : ∀ e ∈ es, e.2.FromJson) (h : List.Forall₂ ChecksTo es fields) :
    ∀ e ∈ fields, e.2.Normal := by
  induction h with
  | nil => simp
  | cons hd _ ih =>
    rw [List.forall_mem_cons] at hs ⊢
    exact ⟨FieldSource.normal_of_check hs.1 hd.2, ih hs.2⟩

namespace FieldTable

def FromJson : FieldTable → Prop
  | entries es => ∀ e ∈ es, e.2.FromJson
  | _ => True

theorem normal_of_check {table : FieldTable} {fields : Entries Text Field} (ht : table.FromJson)
    (h : Schema.checkTable table = accepted fields) : ∀ e ∈ fields, e.2.Normal := by
  cases table with
  | absent =>
    cases h
    simp
  | entries es => exact Schema.normal_of_checksTo ht (Schema.checkTable_entries_iff.1 h)
  | notTable => cases h

end FieldTable

structure Schema.Normal (s : Schema) : Prop where
  wellFormed : s.WellFormed
  name : s.name ≠ ""
  targetName : s.targetName.isEmpty = false
  fields : ∀ e ∈ s.fields, e.2.Normal

namespace Draft

variable {d : Draft} {s : Schema}

theorem checkName_eq_accepted_iff {n : String} :
    d.checkName = accepted n ↔ d.name = some (.str (.ofString n)) ∧ n ≠ "" := by
  unfold checkName
  cases d.name with
  | none => simp
  | some j => simp [nonEmptyText_eq_accepted_iff]

theorem checkTargetName_some {j : Json} {t : Text} (h : d.targetName = some j) :
    d.checkTargetName = accepted t ↔ j = .str t := by
  unfold checkTargetName
  rw [h]
  exact text_eq_accepted_iff

@[simp] theorem normalize_name (d : Draft) : d.normalize.name = d.name := by
  unfold normalize
  split <;> rfl

theorem targetName_given (hn : isGiven d.name = true) :
    ∃ j, d.normalize.targetName = some j ∧ j.isBlank = false := by
  have hsome : ∀ {o : Option Json}, isGiven o = true → ∃ j, o = some j ∧ j.isBlank = false := by
    intro o ho
    cases o with
    | none => contradiction
    | some j => exact ⟨j, rfl, by simpa [isGiven] using ho⟩
  unfold normalize
  rw [hn, Bool.and_true]
  split
  · exact hsome hn
  · next h => exact hsome (by simpa using h)

theorem normal_of_check (hd : d.table.Distinct) (ht : d.table.FromJson) (h : d.check = .ok s) :
    s.Normal := by
  obtain ⟨ha, -⟩ := check_eq_ok_iff.1 h
  obtain ⟨hname, htarget, hfields, -, -⟩ := checkAttributes_eq_accepted_iff.1 ha
  rw [checkName_eq_accepted_iff, normalize_name] at hname
  rw [normalize_table] at hfields
  constructor
  case wellFormed => exact wellFormed_of_check hd h
  case name => exact hname.2
  case fields => exact FieldTable.normal_of_check ht hfields
  case targetName =>
    have hgiven : isGiven d.name = true := by
      rw [hname.1]
      simp [isGiven, Json.isBlank, Text.isEmpty_ofString hname.2]
    obtain ⟨j, hj, hb⟩ := targetName_given hgiven
    rw [checkTargetName_some hj] at htarget
    rw [htarget] at hb
    exact hb

end Draft

namespace Description

/-- The fields repeat no key, and those that are ready were accepted from descriptions. -/
structure FromJson (d : Description) : Prop where
  distinct : d.fields.Distinct
  ready : ∀ es, d.fields.read = .ok es → ∀ e ∈ es, e.2.FromJson

theorem normal_of_build {d : Description} {depth : Depth} {s : Schema} (hd : d.FromJson)
    (h : d.build depth = .ok s) : s.Normal := by
  obtain ⟨index, es, -, hr, hc⟩ := checked_eq_ok_iff.1 (build_eq_ok_iff.1 h).1
  exact Draft.normal_of_check (d := d.draftOf index es)
    (FieldMaterial.nodup_of_read hd.distinct hr) (hd.ready es hr) hc

theorem fromJson_of_loose {d : Description} {j : Json} (h : d.fields = .loose j) : d.FromJson := by
  constructor
  case distinct =>
    rw [h]
    trivial
  case ready =>
    intro es hr e he
    rw [h] at hr
    unfold FieldMaterial.read at hr
    obtain ⟨es', -, hr⟩ := Except.map_eq_ok_iff.1 hr
    cases hr
    obtain ⟨e', -, rfl⟩ := List.mem_map.1 he
    trivial

end Description

namespace Schema

variable {s : Schema}

/-! Schemas from a JSON value -/

theorem ofJson_eq_ok_iff {j : Json} :
    ofJson j = .ok s ↔ ∃ ms, j = .obj ms ∧ (∀ l ∈ Entries.keys ms, l.string?.isSome) ∧
      (Draft.ofMembers ms).check = .ok s := by
  unfold ofJson
  split
  · next issues h =>
    simp only [reduceCtorEq, false_iff]
    rintro ⟨ms, hj, hl, -⟩
    cases h.symm.trans (record_eq_accepted_iff.2 ⟨ms, hj, hl, rfl⟩)
  · next d h =>
    obtain ⟨ms, rfl, hl, hd⟩ := record_eq_accepted_iff.1 h
    cases hd
    simp only [Json.obj.injEq, exists_eq_left', and_iff_right hl]

theorem table_ofMembers {ms : Entries Text Json}
    (h : (Json.obj ms).Everywhere Json.HasDistinctLabels) :
    (Draft.ofMembers ms).table.Distinct ∧ (Draft.ofMembers ms).table.FromJson := by
  unfold Draft.ofMembers
  simp only
  generalize (if !ms.contains "fields" && ms.contains "field_map" then "field_map" else "fields" :
    String) = label
  cases hg : ms.get? label with
  | none => exact ⟨trivial, trivial⟩
  | some j =>
    have hj := ((Json.everywhere_obj_iff.1 h).2 _ (Entries.mem_of_get? hg)).here
    cases j with
    | obj members =>
      constructor
      · change (Entries.keys (members.map _)).Nodup
        unfold Entries.keys
        rw [List.map_map]
        have := hj.map (f := Key.str) (fun _ _ h => Key.str.inj h)
        rw [List.map_map] at this
        exact this
      · intro e he
        obtain ⟨m, -, rfl⟩ := List.mem_map.1 he
        trivial
    | _ => exact ⟨trivial, trivial⟩

theorem normal_of_ofJson {j : Json} (hj : j.Everywhere Json.HasDistinctLabels)
    (h : ofJson j = .ok s) : s.Normal := by
  obtain ⟨ms, rfl, -, hc⟩ := ofJson_eq_ok_iff.1 h
  obtain ⟨hd, ht⟩ := table_ofMembers hj
  exact Draft.normal_of_check hd ht hc

/-! What a schema is written as -/

def labels : List Text := ["name", "target_model_name", "fields", "model_index"]

def members (s : Schema) : Entries Text Json := [
  ("name", .str s.name),
  ("target_model_name", .str s.targetName),
  ("fields", .obj (s.fields.map fun e => (e.1, e.2.toJson))),
  ("model_index", s.index.toJson)]

theorem labelled_members (s : Schema) : Labelled s.members labels :=
  ⟨rfl, by decide, by decide⟩

theorem ofMembers_of_known {ms : Entries Text Json} (hk : ms.keys ⊆ labels) :
    Draft.ofMembers ms = {
      name := ms.get? "name"
      targetName := ms.get? "target_model_name"
      tableLabel := "fields"
      table := ((ms.get? "fields").map Draft.tableOf).getD .absent
      index := (ms.get? "model_index").map .described
      others := [] } := by
  have hc : ms.contains "field_map" = false := by
    rw [← Bool.not_eq_true, Entries.contains_iff]
    exact fun hm => absurd (hk hm) (by decide)
  have ho : (ms.keys.filter fun l => !labels.contains l) = [] := by
    rw [List.filter_eq_nil_iff]
    intro l hl
    simpa using hk hl
  unfold Draft.ofMembers
  simp only [hc, Bool.and_false, Bool.false_eq_true, if_false]
  congr 1

theorem ofMembers_eq {ms : Entries Text Json} {j : Json} (hk : ms.keys ⊆ labels)
    (hf : ms.get? "fields" = some j) :
    Draft.ofMembers ms = {
      name := ms.get? "name"
      targetName := ms.get? "target_model_name"
      tableLabel := "fields"
      table := Draft.tableOf j
      index := (ms.get? "model_index").map .described
      others := [] } := by
  rw [ofMembers_of_known hk, hf]
  rfl

/-- The draft that is read from what a schema is written as. -/
def draft (s : Schema) : Draft where
  name := some (.str s.name)
  targetName := some (.str s.targetName)
  tableLabel := "fields"
  table := .entries (s.fields.map fun e => (.str e.1, .described e.2.toJson))
  index := some (.described s.index.toJson)
  others := []

theorem ofMembers_members (s : Schema) : Draft.ofMembers s.members = s.draft := by
  have hl := labelled_members s
  rw [ofMembers_eq hl.subset (hl.get? 2 rfl), hl.get? 0 rfl, hl.get? 1 rfl, hl.get? 3 rfl]
  simp [draft, Draft.tableOf]

theorem checkTable_described {fields : Entries Text Field} (h : ∀ e ∈ fields, e.2.Normal) :
    checkTable (.entries (fields.map fun e => (.str e.1, .described e.2.toJson))) =
      accepted fields := by
  rw [checkTable_entries_iff]
  induction fields with
  | nil => exact List.Forall₂.nil
  | cons e fields ih =>
    rw [List.forall_mem_cons] at h
    exact List.Forall₂.cons ⟨rfl, h.1.check_toJson⟩ (ih h.2)

theorem Normal.ofJson_toJson (h : s.Normal) : ofJson s.toJson = .ok s := by
  have hl := labelled_members s
  refine ofJson_eq_ok_iff.2 ⟨s.members, rfl, hl.characters, ?_⟩
  rw [ofMembers_members]
  have hn : s.draft.normalize = s.draft := by
    unfold Draft.normalize
    rw [if_neg]
    simp [draft, Draft.isGiven, Json.isBlank, h.targetName]
  refine Draft.check_eq_ok_iff.2 ⟨?_, (wellFormed_iff h.wellFormed.keys_nodup).1 h.wellFormed⟩
  rw [hn]
  refine Draft.checkAttributes_eq_accepted_iff.2 ⟨?_, rfl, ?_, ?_, rfl⟩
  · exact Draft.checkName_eq_accepted_iff.2 ⟨rfl, h.name⟩
  · exact checkTable_described h.fields
  · exact Index.check_toJson s.index

end Schema

end CanonicalSchema
