import CanonicalSchema.Proofs.LastWrites
import CanonicalSchema.Proofs.NormalSchema

/-!
The ways to construct one schema agree: from loose material, from the attributes of one value, and
from fields that were accepted beforehand. Each of them is a success in exactly the case that one
and the same meaning of the parts describes.
-/

namespace CanonicalSchema

open Checked

/-- The parts of a model: any two names, the described fields of an object, and an index. -/
structure Parts where
  name : Json
  targetName : Json
  fields : Entries Text Json
  index : Index

/-! A draft with both names -/

namespace Draft

variable {d : Draft} {n t : Json} {s : Schema}

theorem normalize_targetName (hn : d.name = some n) (ht : d.targetName = some t)
    (hb : n.isBlank = false) :
    d.normalize.targetName = some (if t.isBlank then n else t) := by
  unfold normalize
  rw [hn, ht]
  cases htb : t.isBlank
  · simp [isGiven, hb, htb, ht]
  · simp [isGiven, hb, htb]

theorem check_named_iff (hn : d.name = some n) (ht : d.targetName = some t) :
    d.check = .ok s ↔ (n = .str s.name ∧ s.name ≠ "") ∧
      (if t.isBlank then n else t) = .str s.targetName ∧
      Schema.checkTable d.table = accepted s.fields ∧ d.checkIndex = accepted s.index ∧
      d.others = [] ∧ Schema.brokenRule? s = none := by
  rw [check_eq_ok_iff, checkAttributes_eq_accepted_iff, checkName_eq_accepted_iff, normalize_name,
    hn, normalize_table, normalize_checkIndex, normalize_others, Option.some.injEq]
  have htarget : n = .str s.name ∧ s.name ≠ "" →
      (d.normalize.checkTargetName = accepted s.targetName ↔
        (if t.isBlank then n else t) = .str s.targetName) := by
    rintro ⟨rfl, hne⟩
    exact checkTargetName_some
      (normalize_targetName hn ht (by simpa [Json.isBlank] using Text.isEmpty_ofString hne))
  constructor
  · rintro ⟨⟨hname, hc, htable, hindex, hothers⟩, hrule⟩
    exact ⟨hname, (htarget hname).1 hc, htable, hindex, hothers, hrule⟩
  · rintro ⟨hname, hc, htable, hindex, hothers, hrule⟩
    exact ⟨⟨hname, (htarget hname).2 hc, htable, hindex, hothers⟩, hrule⟩

end Draft

namespace Parts

def describe (p : Parts) (fields : FieldMaterial) : Description where
  name := p.name
  targetName := p.targetName
  fields := fields
  index := .ready p.index
  options := .standard

def description (p : Parts) : Description := p.describe (.loose (.obj p.fields))

/-- Fields that were accepted beforehand take the place of the described ones. -/
def descriptionWith (p : Parts) (fields : Entries Text Field) : Description :=
  p.describe (.table (fields.map fun e => (.str e.1, .ready e.2)))

def members (p : Parts) : Entries Text Json := [
  ("name", p.name),
  ("target_model_name", p.targetName),
  ("fields", .obj p.fields)]

/-- The parts as the attributes of one value, the index as it is. -/
def draft (p : Parts) : Draft :=
  { Draft.ofMembers p.members with index := some (.ready p.index) }

def toJson (p : Parts) : Json := .obj (p.members ++ [(("model_index" : Text), p.index.toJson)])

/-- The schema has the names and the index of the parts, where a blank target name stands for the
name, and breaks no rule. Nothing is said about where its fields come from. -/
structure Fits (p : Parts) (s : Schema) : Prop where
  name : p.name = .str s.name
  name_ne : s.name ≠ ""
  targetName : (if p.targetName.isBlank then p.name else p.targetName) = .str s.targetName
  index : p.index = s.index
  rules : Schema.brokenRule? s = none

variable {p : Parts} {depth : Depth} {s : Schema}

theorem checkTable_ready_iff {fields accepted : Entries Text Field} :
    Schema.checkTable (.entries (fields.map fun e => (.str e.1, .ready e.2))) =
      .accepted accepted ↔ fields = accepted := by
  rw [Schema.checkTable_entries_iff, List.forall₂_map_left_iff]
  have hone : (fun m e => Schema.ChecksTo ((Key.str m.1, FieldSource.ready m.2)) e) =
      (· = ·) := by
    funext m e
    simp [Schema.ChecksTo, FieldSource.check, Prod.ext_iff]
  rw [hone, List.forall₂_eq_eq_eq]

/-! The paths, one by one -/

theorem read_fields (hd : p.fields.keys.Nodup) :
    (FieldMaterial.loose (.obj p.fields)).read =
      .ok (p.fields.map fun m => (.str m.1, .described m.2)) := by
  have ha : Entries.Apart (Entries.keys (p.fields.map fun m => (Key.str m.1, m.2))) := by
    unfold Entries.Apart Entries.keys
    rw [List.map_map, List.pairwise_map]
    refine (List.pairwise_map.1 hd).imp fun {m m'} hne => ?_
    change (m'.1 == m.1) = false
    exact beq_eq_false_iff_ne.2 hne.symm
  change (Table.read (.obj p.fields)).map _ = _
  unfold Table.read Table.readable
  simp only [Entries.ofList_of_apart ha]
  change Except.ok (List.map _ _) = _
  rw [List.map_map]
  rfl

theorem build_standard_iff {d : Description} (h : d.options = .standard) :
    d.build depth = .ok s ↔ d.checked depth = .ok s := by
  rw [Description.build_eq_ok_iff]
  refine and_iff_left fun hstrict => ?_
  rw [h] at hstrict
  contradiction

/-- What the drafts for the parts have in common, wherever their tables come from. -/
theorem check_iff {d : Draft} (hname : d.name = some p.name)
    (htarget : d.targetName = some p.targetName ∨
      d.targetName = some (if p.targetName.isBlank then p.name else p.targetName))
    (hindex : d.checkIndex = accepted p.index) (hothers : d.others = []) :
    d.check = .ok s ↔ p.Fits s ∧ Schema.checkTable d.table = accepted s.fields := by
  have hcheck : d.check = .ok s ↔ (p.name = .str s.name ∧ s.name ≠ "") ∧
      (if p.targetName.isBlank then p.name else p.targetName) = .str s.targetName ∧
      Schema.checkTable d.table = accepted s.fields ∧ d.checkIndex = accepted s.index ∧
      d.others = [] ∧ Schema.brokenRule? s = none := by
    rcases htarget with htarget | htarget
    · exact Draft.check_named_iff hname htarget
    · -- A build fills in the target name before the draft would; doing so twice changes nothing.
      rw [Draft.check_named_iff hname htarget]
      cases hb : p.targetName.isBlank <;> simp [hb]
  rw [hcheck, hindex, accepted_inj]
  constructor
  · rintro ⟨⟨hn, hne⟩, ht, hf, hi, -, hrule⟩
    exact ⟨⟨hn, hne, ht, hi, hrule⟩, hf⟩
  · rintro ⟨h, hf⟩
    exact ⟨⟨h.name, h.name_ne⟩, h.targetName, hf, h.index, hothers, h.rules⟩

theorem build_describe_iff {fields : FieldMaterial} {es : Entries Key FieldSource}
    (hr : fields.read = .ok es) :
    (p.describe fields).build depth = .ok s ↔
      p.Fits s ∧ Schema.checkTable (.entries es) = accepted s.fields := by
  have hcheck := check_iff (p := p) (s := s) (d := (p.describe fields).draftOf p.index es) rfl
    (Or.inr rfl) rfl rfl
  rw [build_standard_iff rfl, Description.checked_eq_ok_iff]
  refine Iff.trans ⟨?_, ?_⟩ hcheck
  · rintro ⟨index, es', hi, hr', hc⟩
    cases hi
    cases hr.symm.trans hr'
    exact hc
  · exact fun hc => ⟨p.index, es, rfl, hr, hc⟩

theorem build_iff (hd : p.fields.keys.Nodup) :
    p.description.build depth = .ok s ↔
      p.Fits s ∧ List.Forall₂ Schema.Accepts p.fields s.fields := by
  rw [← Schema.checkTable_tableOf_iff]
  exact build_describe_iff (read_fields hd)

theorem build_with_iff {fields : Entries Text Field} :
    (p.descriptionWith fields).build depth = .ok s ↔ p.Fits s ∧ fields = s.fields := by
  rw [← checkTable_ready_iff]
  exact build_describe_iff rfl

theorem attributes_iff {d : Draft} (hname : d.name = some p.name)
    (htarget : d.targetName = some p.targetName) (htable : d.table = Draft.tableOf (.obj p.fields))
    (hindex : d.checkIndex = accepted p.index) (hothers : d.others = []) :
    d.check = .ok s ↔ p.Fits s ∧ List.Forall₂ Schema.Accepts p.fields s.fields := by
  rw [← Schema.checkTable_tableOf_iff, ← htable]
  exact check_iff hname (Or.inl htarget) hindex hothers

theorem draft_iff :
    p.draft.check = .ok s ↔ p.Fits s ∧ List.Forall₂ Schema.Accepts p.fields s.fields := by
  have hl : Labelled p.members ["name", "target_model_name", "fields"] :=
    ⟨rfl, by decide, by decide⟩
  unfold draft
  rw [Schema.ofMembers_eq (hl.keys ▸ by decide) (hl.get? 2 rfl)]
  exact attributes_iff (hl.get? 0 rfl) (hl.get? 1 rfl) rfl rfl rfl

theorem ofJson_iff :
    Schema.ofJson p.toJson = .ok s ↔ p.Fits s ∧ List.Forall₂ Schema.Accepts p.fields s.fields := by
  have hl : Labelled (p.members ++ [(("model_index" : Text), p.index.toJson)]) Schema.labels :=
    ⟨rfl, by decide, by decide⟩
  have hcheck : (Draft.ofMembers (p.members ++ [(("model_index" : Text), p.index.toJson)])).check =
      .ok s ↔ p.Fits s ∧ List.Forall₂ Schema.Accepts p.fields s.fields := by
    rw [Schema.ofMembers_eq (hl.keys ▸ List.Subset.refl _) (hl.get? 2 rfl), hl.get? 3 rfl]
    exact attributes_iff (hl.get? 0 rfl) (hl.get? 1 rfl) rfl (Index.check_toJson p.index) rfl
  rw [Schema.ofJson_eq_ok_iff, ← hcheck]
  constructor
  · rintro ⟨ms, hj, -, hc⟩
    cases hj
    exact hc
  · exact fun hc => ⟨_, rfl, hl.characters, hc⟩

/-- All ways yield the same schemas, and a blank target name always means the name. -/
theorem paths_agree (p : Parts) (hd : p.fields.keys.Nodup) (depth : Depth) (s : Schema) :
    (p.description.build depth = .ok s ↔ p.draft.check = .ok s) ∧
      (p.description.build depth = .ok s ↔ Schema.ofJson p.toJson = .ok s) ∧
      (p.description.build depth = .ok s ↔ ∃ fields, List.Forall₂ Schema.Accepts p.fields fields ∧
        (p.descriptionWith fields).build depth = .ok s) ∧
      (p.targetName.isBlank = true → p.description.build depth = .ok s →
        s.targetName = s.name) := by
  refine ⟨(build_iff hd).trans draft_iff.symm, (build_iff hd).trans ofJson_iff.symm, ?_, ?_⟩
  · rw [build_iff hd]
    constructor
    · rintro ⟨h, hf⟩
      exact ⟨s.fields, hf, build_with_iff.2 ⟨h, rfl⟩⟩
    · rintro ⟨fields, hf, hb⟩
      obtain ⟨h, rfl⟩ := build_with_iff.1 hb
      exact ⟨h, hf⟩
  · intro hb h
    have hfits := ((build_iff hd).1 h).1
    have htarget := hfits.targetName
    rw [if_pos hb, hfits.name] at htarget
    exact (Json.str.inj htarget).symm

def post : Parts where
  name := .str "Post"
  targetName := .bool false
  fields := [
    ("title", .obj [("name", .str "title"), ("declared_type", .str "string")]),
    ("id", .obj [("name", .str "id"), ("declared_type", .str "id"),
      ("is_primary_key", .bool true)])]
  index := ⟨some "byTitle", ["title"]⟩

def postSchema : Schema where
  name := "Post"
  targetName := "Post"
  fields := [
    ("title", ⟨"title", "title", .string, none, false, false, false, false, none, none⟩),
    ("id", ⟨"id", "id", .id, none, false, false, false, true, none, none⟩)]
  index := ⟨some "byTitle", ["title"]⟩

theorem paths_agree_post :
    post.fields.keys.Nodup ∧ post.description.build .standard = .ok postSchema ∧
      post.draft.check = .ok postSchema ∧ Schema.ofJson post.toJson = .ok postSchema ∧
      (∃ fields, List.Forall₂ Schema.Accepts post.fields fields ∧
        (post.descriptionWith fields).build .standard = .ok postSchema) ∧
      postSchema.targetName = postSchema.name := by
  have hd : post.fields.keys.Nodup := by decide
  have hb : post.description.build .standard = .ok postSchema :=
    Description.build_eq_ok_iff.2 ⟨by decide +kernel, nofun⟩
  obtain ⟨hdraft, hjson, hready, hblank⟩ := paths_agree post hd .standard postSchema
  exact ⟨hd, hb, hdraft.1 hb, hjson.1 hb, hready.1 hb, hblank rfl hb⟩

end Parts

end CanonicalSchema
