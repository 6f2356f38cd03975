import CanonicalSchema.Proofs.Json.LayoutReading
import CanonicalSchema.Proofs.Refusal
import Mathlib.Data.List.Count

/-!
What a build comes to, and what the strict option is for: it changes nothing but that a schema whose
index names unknown fields is refused as well.
-/

namespace CanonicalSchema

/-- The names in an index that no field has, in the order of the index and as often as there. -/
structure Schema.UnknownNames (s : Schema) (names : List Text) : Prop where
  sublist : names.Sublist s.index.fields
  not_mem_of_key : ∀ n ∈ s.fields.keys, n ∉ names
  count_eq : ∀ n, n ∉ s.fields.keys → names.count n = s.index.fields.count n

namespace Description

variable {d : Description} {depth : Depth} {s : Schema}

def withStrict (d : Description) (strict : Bool) : Description :=
  { d with options := { d.options with strictIndex := strict } }

@[simp] theorem checked_withStrict (d : Description) (strict : Bool) :
    (d.withStrict strict).checked depth = d.checked depth := rfl

theorem unknownIndexFields_eq_nil_iff :
    unknownIndexFields s = [] ↔ ∀ n ∈ s.index.fields, n ∈ s.fields.keys := by
  unfold unknownIndexFields
  simp [List.filter_eq_nil_iff, Entries.contains_iff]

theorem unknownNames_unknownIndexFields (s : Schema) : s.UnknownNames (unknownIndexFields s) := by
  have hmem : ∀ {n : Text}, (!s.fields.contains n) = true ↔ n ∉ s.fields.keys := by
    intro n
    rw [← Entries.contains_iff, Bool.not_eq_true', Bool.not_eq_true]
  unfold unknownIndexFields
  constructor
  case sublist => exact List.filter_sublist
  case not_mem_of_key =>
    intro n hn hf
    exact hmem.1 (List.mem_filter.1 hf).2 hn
  case count_eq =>
    intro n hn
    exact List.count_filter (hmem.2 hn)

theorem build_lenient_iff :
    (d.withStrict false).build depth = .ok s ↔ d.checked depth = .ok s := by
  rw [build_eq_ok_iff, checked_withStrict, and_iff_left]
  intro h
  cases h

theorem build_strict_iff : (d.withStrict true).build depth = .ok s ↔
    (d.withStrict false).build depth = .ok s ∧ ∀ n ∈ s.index.fields, n ∈ s.fields.keys := by
  rw [build_lenient_iff, build_eq_ok_iff, checked_withStrict, ← unknownIndexFields_eq_nil_iff]
  exact and_congr_right fun _ => ⟨fun h => h rfl, fun h _ => h⟩

theorem build_strict_unknown (hc : d.checked depth = .ok s) (hu : unknownIndexFields s ≠ []) :
    (d.withStrict true).build depth =
      .error (.failure ⟨d.name, .unknownIndexFields s.index.name (unknownIndexFields s)⟩) := by
  refine (build_of_checked (d := d.withStrict true) hc).resolve_left fun hb => ?_
  exact hu (unknownIndexFields_eq_nil_iff.2 (build_strict_iff.1 hb).2)

def noteDescription : Description where
  name := .str "Note"
  targetName := .str ""
  fields := .loose (.arr [
    .arr [.str "id", .obj [("name", .str "id"), ("declared_type", .str "id")]]])
  index := .value (.obj [("fields", .arr [.str "title", .str "id", .str "title"])])
  options := .standard

def note : Schema where
  name := "Note"
  targetName := "Note"
  fields := [("id", ⟨"id", "id", .id, none, false, false, false, false, none, none⟩)]
  index := ⟨none, ["title", "id", "title"]⟩

theorem isRead_noteDescription (reading : Depth) : noteDescription.IsRead reading := by
  have hname : noteDescription.name.Everywhere Json.IsReadable := by
    simp [noteDescription, Json.isReadable_iff, Json.IsFloat, Json.texts, Json.HasDistinctLabels]
  have hindex : noteDescription.index.json.Everywhere Json.IsReadable := by
    simp [noteDescription, IndexDeclaration.json, Json.isReadable_iff, Json.IsFloat, Json.texts,
      Json.HasDistinctLabels]
  have hlevels : noteDescription.index.json.NestsWithin 5 := by
    simp [noteDescription, IndexDeclaration.json]
  exact ⟨⟨_, Json.read_layout hname (.leaf id)⟩,
    ⟨_, Json.read_layout hindex (hlevels.mono reading.five_le_limit)⟩⟩

def bare (name : Json) (index : IndexDeclaration) : Description where
  name := name
  targetName := .null
  fields := .loose (.obj [])
  index := index
  options := .standard

theorem exists_refused_of_not_text (h : ∀ t, d.name ≠ .str t) : ∃ cause, d.Refused depth cause := by
  cases hc : d.checked depth with
  | error cause => exact ⟨cause, checked_eq_error_iff.1 hc⟩
  | ok s => exact absurd (name_of_checked hc) (h _)

theorem refused_of_nested_index (depth : Depth) (name : Json) :
    (bare name (.value (.nested depth.limit))).Refused depth (.unwordable .tooDeep) := by
  have hfault : (Json.nested depth.limit).wordingFault? depth = some .tooDeep :=
    Json.wordingFaultWithin?_nested depth.limit
  obtain ⟨n, hn⟩ := Nat.exists_eq_succ_of_ne_zero (Nat.ne_zero_of_lt depth.limit_pos)
  refine .index ?_
  rw [hn] at hfault ⊢
  simp only [bare, Json.nested, IndexDeclaration.resolve, IndexDeclaration.unsupported] at hfault ⊢
  rw [hfault]

/-- Neither a schema nor a failure comes of a name that is too long an integer or nested too deep,
and of an index that is: all that is asked of the two is needed. -/
theorem unworded_builds_escape (depth : Depth) :
    (∃ cause, (bare (.int Json.leastLong) .absent).build depth = .error (.escaped cause)) ∧
      (∃ cause, (bare (Json.nested depth.limit) .absent).build depth = .error (.escaped cause)) ∧
      ∃ cause, (bare (.str "Post") (.value (Json.nested depth.limit))).build depth =
        .error (.escaped cause) := by
  refine ⟨build_escapes_iff.2 ?_, build_escapes_iff.2 ?_, build_escapes_iff.2 ?_⟩
  · obtain ⟨cause, hr⟩ := exists_refused_of_not_text (d := bare (.int Json.leastLong) .absent) nofun
    exact ⟨cause, hr, Or.inr (Json.not_isWordable_leastLong depth)⟩
  · have hname : ∀ t, Json.nested depth.limit ≠ .str t := by
      obtain ⟨n, hn⟩ := Nat.exists_eq_succ_of_ne_zero (Nat.ne_zero_of_lt depth.limit_pos)
      rw [hn]
      nofun
    obtain ⟨cause, hr⟩ := exists_refused_of_not_text (d := bare _ .absent) hname
    exact ⟨cause, hr, Or.inr (Json.not_isWordable_nested depth)⟩
  · exact ⟨_, refused_of_nested_index depth (.str "Post"), Or.inl rfl⟩

end Description

end CanonicalSchema
