import CanonicalSchema.Proofs.Json.Numeral
import CanonicalSchema.Proofs.NormalSchema

/-!
What a schema is written as, seen as a tree: it never holds a floating-point number, its objects
repeat no label as long as the keys of its fields do not, and it has five levels at most.
-/

namespace CanonicalSchema

open Json

theorem plain_texts (ts : List Text) : (arr (ts.map str)).Everywhere IsPlain := by
  apply plain_arr
  intro v hv
  obtain ⟨t, -, rfl⟩ := List.mem_map.1 hv
  exact plain_str t

theorem Labelled.plain {ms : Entries Text Json} {labels : List Text} (h : Labelled ms labels)
    (hv : ∀ v ∈ ms.values, v.Everywhere IsPlain) : (obj ms).Everywhere IsPlain := by
  apply plain_obj
  · change ms.keys.Nodup
    rw [h.keys]
    exact h.nodup
  · exact fun m hm => hv _ (List.mem_map_of_mem hm)

theorem Reference.plain_toJson (r : Reference) : r.toJson.Everywhere IsPlain := by
  apply (labelled_members r).plain
  simp only [members, Entries.values, List.map_cons, List.map_nil, List.forall_mem_cons]
  exact ⟨plain_str _, plain_str _, plain_ofOption _ fun n => plain_int n,
    plain_ofOption _ plain_str, List.forall_mem_nil _⟩

theorem Reference.nestsWithin_toJson (r : Reference) : r.toJson.NestsWithin 2 := by
  refine nestsWithin_obj_iff.2 ?_
  simp only [List.forall_mem_cons]
  exact ⟨.leaf id, .leaf id, nestsWithin_ofOption _ fun _ => .leaf id,
    nestsWithin_ofOption _ fun _ => .leaf id, List.forall_mem_nil _⟩

theorem Connection.plain_toJson (c : Connection) : c.toJson.Everywhere IsPlain := by
  apply (labelled_members c).plain
  simp only [members, Entries.values, List.map_cons, List.map_nil, List.forall_mem_cons]
  exact ⟨plain_ofOption _ plain_str, plain_ofOption _ plain_str, plain_ofOption _ plain_str,
    plain_ofOption _ plain_str, plain_ofOption _ fun n => plain_int n, plain_texts _, plain_str _,
    plain_str _, List.forall_mem_nil _⟩

theorem Connection.nestsWithin_toJson (c : Connection) : c.toJson.NestsWithin 2 := by
  refine nestsWithin_obj_iff.2 ?_
  simp only [List.forall_mem_cons]
  exact ⟨nestsWithin_ofOption _ fun _ => .leaf id, nestsWithin_ofOption _ fun _ => .leaf id,
    nestsWithin_ofOption _ fun _ => .leaf id, nestsWithin_ofOption _ fun _ => .leaf id,
    nestsWithin_ofOption _ fun _ => .leaf id, nestsWithin_texts 0 _, .leaf id, .leaf id,
    List.forall_mem_nil _⟩

theorem Field.plain_toJson (f : Field) : f.toJson.Everywhere IsPlain := by
  apply (labelled_members f).plain
  simp only [members, Entries.values, List.map_cons, List.map_nil, List.forall_mem_cons]
  exact ⟨plain_str _, plain_str _, plain_str _, plain_ofOption _ plain_str, plain_bool _,
    plain_bool _, plain_bool _, plain_bool _, plain_ofOption _ Reference.plain_toJson,
    plain_ofOption _ Connection.plain_toJson, List.forall_mem_nil _⟩

theorem Field.nestsWithin_toJson (f : Field) : f.toJson.NestsWithin 3 := by
  refine nestsWithin_obj_iff.2 ?_
  simp only [List.forall_mem_cons]
  exact ⟨.leaf id, .leaf id, .leaf id, nestsWithin_ofOption _ fun _ => .leaf id, .leaf id, .leaf id,
    .leaf id, .leaf id, nestsWithin_ofOption _ Reference.nestsWithin_toJson,
    nestsWithin_ofOption _ Connection.nestsWithin_toJson, List.forall_mem_nil _⟩

def Index.members (i : Index) : Entries Text Json := [
  ("index_name", .ofOption .str i.name),
  ("index_field_names", .arr (i.fields.map .str))]

theorem Index.labelled_members (i : Index) : Labelled i.members labels :=
  ⟨rfl, by decide, by decide⟩

theorem Index.plain_toJson (i : Index) : i.toJson.Everywhere IsPlain := by
  apply (labelled_members i).plain
  simp only [members, Entries.values, List.map_cons, List.map_nil, List.forall_mem_cons]
  exact ⟨plain_ofOption _ plain_str, plain_texts _, List.forall_mem_nil _⟩

theorem Index.nestsWithin_toJson (i : Index) : i.toJson.NestsWithin 2 := by
  refine nestsWithin_obj_iff.2 ?_
  simp only [List.forall_mem_cons]
  exact ⟨nestsWithin_ofOption _ fun _ => .leaf id, nestsWithin_texts 0 _, List.forall_mem_nil _⟩

namespace Schema

variable {s : Schema}

theorem plain_toJson (h : s.fields.keys.Nodup) : s.toJson.Everywhere IsPlain := by
  apply (labelled_members s).plain
  simp only [members, Entries.values, List.map_cons, List.map_nil, List.forall_mem_cons]
  refine ⟨plain_str _, plain_str _, plain_obj ?_ ?_, Index.plain_toJson _, List.forall_mem_nil _⟩
  · rw [List.map_map]
    exact h
  · intro m hm
    obtain ⟨e, -, rfl⟩ := List.mem_map.1 hm
    exact Field.plain_toJson e.2

theorem nestsWithin_toJson (s : Schema) : s.toJson.NestsWithin 5 := by
  refine nestsWithin_obj_iff.2 ?_
  simp only [List.forall_mem_cons]
  refine ⟨.leaf id, .leaf id, nestsWithin_obj_iff.2 fun m hm => ?_,
    s.index.nestsWithin_toJson.mono (by decide), List.forall_mem_nil _⟩
  obtain ⟨e, -, rfl⟩ := List.mem_map.1 hm
  exact e.2.nestsWithin_toJson

theorem nestsWithin_depth (s : Schema) (depth : Depth) : s.toJson.NestsWithin depth.limit :=
  s.nestsWithin_toJson.mono depth.five_le_limit

/-- Every text of the schema is made of characters, its field keys included. -/
def OfCharacters (s : Schema) : Prop :=
  s.toJson.Everywhere fun v => ∀ t ∈ v.texts, t.OfCharacters

/-- Every limit in the schema is short enough to be read. -/
def HasShortLimits (s : Schema) : Prop :=
  s.toJson.Everywhere fun v => ∀ n, v = .int n → IsShortInteger n

end Schema

end CanonicalSchema
