import CanonicalSchema.Proofs.CanonicalView
import CanonicalSchema.Proofs.Comparison
import CanonicalSchema.Schema.Builder

/-!
Schemas, however they came about: built from a description at once or step by step, validated, or
loaded from a file. All of them are in normal form, so all of them show their canonical order.
-/

namespace CanonicalSchema

open Checked

namespace Builder

/-- What can be done to a builder; looking at what it builds leaves it as it is. -/
inductive Step where
  | setTargetName (targetName : Json)
  | addField (field : Field)
  | addFields (material : FieldMaterial)
  | setIndex (name fields : Json)

/-- The builder that a step leaves, also where the step fails. -/
def after (b : Builder) : Step → Builder
  | .setTargetName targetName => b.setTargetName targetName
  | .addField field => b.addField field
  | .addFields material => (b.addFields material).1
  | .setIndex name fields => (b.setIndex name fields).1

def afterAll (b : Builder) (steps : List Step) : Builder := steps.foldl after b

/-- A ready field that is added was accepted from some description. -/
def Step.FromJson : Step → Prop
  | addField field => ∃ j, Field.check j = accepted field
  | addFields material => ∀ e ∈ material.readable.1, e.2.FromJson
  | _ => True

theorem Step.fromJson_loose (j : Json) : (addFields (.loose j)).FromJson := by
  intro e he
  obtain ⟨e', -, rfl⟩ := List.mem_map.1 he
  trivial

/-- What a builder has collected repeats no key, and its ready fields were accepted. -/
structure Collected (b : Builder) : Prop where
  distinct : b.fields.keys.Nodup
  fromJson : ∀ e ∈ b.fields, e.2.FromJson

variable {b : Builder}

theorem collected_start (name : Json) (options : Options) : (start name options).Collected :=
  ⟨List.nodup_nil, List.forall_mem_nil _⟩

theorem Collected.after (h : b.Collected) {step : Step} (hs : step.FromJson) :
    (b.after step).Collected := by
  cases step with
  | setTargetName targetName => exact ⟨h.distinct, h.fromJson⟩
  | addField field =>
    constructor
    case distinct => exact (Entries.nodup_keys_put h.distinct _ _).1
    case fromJson =>
      intro e he
      rcases Entries.mem_of_mem_put he with he | he
      · exact h.fromJson e he
      · rw [he]
        exact hs
  | addFields material =>
    constructor
    case distinct => exact Entries.nodup_keys_merge h.distinct _
    case fromJson => exact Entries.forall_values_merge h.fromJson hs
  | setIndex name fields =>
    unfold Builder.after setIndex
    simp only
    split
    · exact ⟨h.distinct, h.fromJson⟩
    · exact h

theorem Collected.afterAll (h : b.Collected) {steps : List Step}
    (hs : ∀ step ∈ steps, step.FromJson) : (b.afterAll steps).Collected := by
  induction steps generalizing b with
  | nil => exact h
  | cons step steps ih =>
    rw [List.forall_mem_cons] at hs
    exact ih (h.after hs.1) hs.2

theorem Collected.description (h : b.Collected) : b.description.FromJson := by
  constructor
  case distinct => exact h.distinct
  case ready =>
    intro es hr
    cases hr
    exact h.fromJson

end Builder

namespace Schema

variable {s : Schema}

/-- The ways to a schema. Tables repeat no key and JSON values no label; fields that are given ready
were accepted from descriptions. -/
inductive Constructed : Schema → Prop
  | built {d : Description} {depth : Depth} {s : Schema} (hd : d.FromJson)
      (h : d.build depth = .ok s) : Constructed s
  | collected {name : Json} {options : Options} {steps : List Builder.Step} {depth : Depth}
      {s : Schema} (hs : ∀ step ∈ steps, step.FromJson)
      (h : ((Builder.start name options).afterAll steps).build depth = .ok s) : Constructed s
  | drafted {d : Draft} {s : Schema} (hd : d.table.Distinct) (ht : d.table.FromJson)
      (h : d.check = .ok s) : Constructed s
  | validated {j : Json} {s : Schema} (hj : j.Everywhere Json.HasDistinctLabels)
      (h : ofJson j = .ok s) : Constructed s
  | loaded {depth : Depth} {path : Path} {bytes : List UInt8} {s : Schema}
      (h : Snapshot.load depth path bytes = .ok s) : Constructed s

theorem Constructed.normal (h : s.Constructed) : s.Normal := by
  cases h with
  | built hd h => exact Description.normal_of_build hd h
  | @collected name options steps _ _ hs h =>
    have hc := (Builder.collected_start name options).afterAll hs
    exact Description.normal_of_build hc.description h
  | drafted hd ht h => exact Draft.normal_of_check hd ht h
  | validated hj h => exact normal_of_ofJson hj h
  | loaded h => exact Snapshot.normal_of_load h

/-- Whichever way a schema was constructed, its canonical order is strict and complete, and what is
taken out of it is exactly what it should be. -/
theorem Constructed.canonical_view (h : s.Constructed) : s.Canonical := h.normal.canonical

end Schema

namespace Builder

def authorField : Field :=
  ⟨"author", "author", .model, none, false, false, false, false,
    some ⟨"User", .belongsTo, none, none⟩, none⟩

def postSteps : List Step := [
  .addField authorField,
  .setTargetName (.str "Posts"),
  .addFields (.loose (.obj [
    ("id", .obj [("name", .str "id"), ("declared_type", .str "id"), ("is_primary_key", .bool true),
      ("connection", .obj [("relationship", .str "has_one"), ("connection_target", .str "Node")])]),
    ("title", .obj [("name", .str "title"), ("declared_type", .str "string")]),
    ("comments", .obj [("name", .str "comments"), ("declared_type", .str "collection"),
      ("connection", .obj [("relationship", .str "has_many"),
        ("connection_target", .str "Comment")])])])),
  .setIndex (.str "byTitle") (.arr [.str "title"])]

def post : Schema where
  name := "Post"
  targetName := "Posts"
  fields := [
    ("author", authorField),
    ("id", ⟨"id", "id", .id, none, false, false, false, true, none,
      some ⟨none, none, none, none, none, [], .hasOne, "Node"⟩⟩),
    ("title", ⟨"title", "title", .string, none, false, false, false, false, none, none⟩),
    ("comments", ⟨"comments", "comments", .collection, none, false, false, false, false, none,
      some ⟨none, none, none, none, none, [], .hasMany, "Comment"⟩⟩)]
  index := ⟨some "byTitle", ["title"]⟩

theorem constructed_post : post.Constructed := by
  have hs : ∀ step ∈ postSteps, step.FromJson := by
    simp only [postSteps, List.forall_mem_cons]
    exact ⟨⟨authorField.toJson, by decide +kernel⟩, trivial, Step.fromJson_loose _, trivial,
      List.forall_mem_nil _⟩
  have h : ((start (.str "Post") .standard).afterAll postSteps).build .standard = .ok post :=
    Description.build_eq_ok_iff.2 ⟨by decide +kernel, nofun⟩
  exact .collected hs h

theorem canonical_view_post : post.Constructed ∧ post.Canonical :=
  ⟨constructed_post, constructed_post.canonical_view⟩

end Builder

end CanonicalSchema
