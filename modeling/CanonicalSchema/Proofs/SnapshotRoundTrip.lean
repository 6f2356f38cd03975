import CanonicalSchema.Proofs.Json.UnreadText
import CanonicalSchema.Proofs.StoredFiles
import CanonicalSchema.Proofs.Wording
import CanonicalSchema.Proofs.WrittenSchema
import CanonicalSchema.Schema.Snapshot

/-!
A schema that comes from JSON is the one that is loaded from its snapshot. Its texts have to be made
of characters, since nothing encodes a surrogate, and its limits have to be short enough to be read:
the snapshot of one with a longer limit is not loaded, nor is a failure of it reported.
-/

namespace CanonicalSchema

/-- Schemas from JSON: all of it is in one value, or in the material of a description. -/
inductive Schema.Obtained : Schema → Prop
  | checked {j : Json} {s : Schema} (hj : j.Everywhere Json.HasDistinctLabels)
      (h : ofJson j = .ok s) : Obtained s
  | built {d : Description} {depth : Depth} {s : Schema} (hd : d.FromJson)
      (h : d.build depth = .ok s) : Obtained s

theorem Schema.Obtained.normal {s : Schema} (h : s.Obtained) : s.Normal := by
  cases h with
  | checked hj h => exact normal_of_ofJson hj h
  | built hd h => exact Description.normal_of_build hd h

theorem Schema.spelt_toJson {s : Schema} (hn : s.fields.keys.Nodup) (hc : s.OfCharacters) :
    s.toJson.Everywhere Json.IsSpelt := by
  refine Json.Everywhere.imp ?_ ((plain_toJson hn).and hc)
  rintro v ⟨hplain, htexts⟩
  exact ⟨hplain.noFloat, htexts, hplain.labels⟩

theorem Schema.readable_toJson {s : Schema} (hn : s.fields.keys.Nodup) (hc : s.OfCharacters)
    (hl : s.HasShortLimits) : s.toJson.Everywhere Json.IsReadable := by
  refine Json.Everywhere.imp ?_ ((spelt_toJson hn hc).and hl)
  rintro v ⟨hspelt, hinteger⟩
  exact ⟨hspelt, hinteger⟩

namespace Snapshot

variable {depth : Depth} {s : Schema} {p : Path}

theorem ofBytes_bytes (hn : s.fields.keys.Nodup) (hc : s.OfCharacters) (hl : s.HasShortLimits) :
    Json.ofBytes depth (bytes s) = .ok s.toJson :=
  Json.ofBytes_layout (Schema.readable_toJson hn hc hl) (s.nestsWithin_depth depth)

theorem load_bytes (h : s.Normal) (hc : s.OfCharacters) (hl : s.HasShortLimits) (depth : Depth)
    (p : Path) : load depth p (bytes s) = .ok s := by
  unfold load
  simp only [ofBytes_bytes h.wellFormed.keys_nodup hc hl, h.ofJson_toJson]
  rfl

/-- A snapshot with a limit of too many digits ends every load without a report. -/
theorem load_bytes_escapes (hn : s.fields.keys.Nodup) (hc : s.OfCharacters)
    (hl : ¬ s.HasShortLimits) (depth : Depth) : ∃ digits, ∀ p, load depth p (bytes s) =
      .error (.escaped (.document (.content (.longInteger digits)))) := by
  obtain hread | ⟨digits, hb⟩ := Json.ofBytes_layout_or_stops (Schema.spelt_toJson hn hc)
    (s.nestsWithin_depth depth)
  · exact absurd (hread.imp fun _ hv => hv.integer) hl
  · refine ⟨digits, fun p => ?_⟩
    unfold load
    rw [show Json.ofBytes depth (bytes s) = _ from hb]
    rfl

/-! A limit of one digit more than are read -/

def limitedJson : Json := .obj [
  ("name", .str "Post"),
  ("fields", .obj [
    ("author", .obj [("name", .str "author"), ("declared_type", .str "model"),
      ("relationship", .obj [("target_model", .str "User"), ("limit", .int Json.leastLong)])])])]

def limited : Schema where
  name := "Post"
  targetName := "Post"
  fields := [
    ("author", ⟨"author", "author", .model, none, false, false, false, false,
      some ⟨"User", .belongsTo, some Json.leastLong, none⟩, none⟩)]
  index := .empty

theorem distinctLabels_limitedJson : limitedJson.Everywhere Json.HasDistinctLabels := by
  simp [limitedJson, Json.everywhere_obj_iff, Json.HasDistinctLabels]

theorem ofJson_limitedJson : Schema.ofJson limitedJson = .ok limited := by decide +kernel

theorem ofCharacters_limited : limited.OfCharacters := by
  simp [Schema.OfCharacters, limited, Schema.toJson, Field.toJson, Reference.toJson,
    Index.toJson, Index.empty, Json.ofOption, Json.texts]

theorem not_hasShortLimits_limited : ¬ limited.HasShortLimits := by
  intro h
  have hlimit : Json.IsShortInteger Json.leastLong := by
    simp [Schema.HasShortLimits, limited, Schema.toJson, Field.toJson, Reference.toJson,
      Json.ofOption] at h
    exact h.1
  exact Json.not_isShortInteger_leastLong hlimit

theorem load_limited_escapes (depth : Depth) : ∃ digits, ∀ p, load depth p (bytes limited) =
    .error (.escaped (.document (.content (.longInteger digits)))) :=
  load_bytes_escapes (by decide) ofCharacters_limited not_hasShortLimits_limited depth

/-- What was saved is loaded as it was, the order of its fields included, and saving it once more,
wherever that may be, writes the same content. -/
theorem load_saved (h : s.Obtained) (hc : s.OfCharacters) (hl : s.HasShortLimits)
    {files files' : FileTree} (hs : files.save p (bytes s) = (files', none)) :
    ∃ content loaded, files'.read p = .ok content ∧ load depth p content = .ok loaded ∧ loaded = s ∧
      ∀ {tree tree' : FileTree} {q : Path}, tree.save q (bytes loaded) = (tree', none) →
        tree'.read q = .ok content :=
  ⟨bytes s, s, FileTree.read_of_save hs, load_bytes h.normal hc hl depth p, rfl,
    FileTree.read_of_save⟩

def postJson : Json := .obj [
  ("name", .str "\"Post\"\té😀"),
  ("fields", .obj [
    ("author", .obj [("name", .str "author"), ("declared_type", .str "model"),
      ("relationship", .obj [("target_model", .str "User"), ("limit", .int 10)])]),
    ("comments", .obj [("name", .str "comments"), ("declared_type", .str "collection"),
      ("connection", .obj [("relationship", .str "has_many"),
        ("connection_target", .str "Comment"), ("fields", .arr [.str "post_id"])])])]),
  ("model_index", .obj [("index_field_names", .arr [.str "author"])])]

def post : Schema where
  name := "\"Post\"\té😀"
  targetName := "\"Post\"\té😀"
  fields := [
    ("author", ⟨"author", "author", .model, none, false, false, false, false,
      some ⟨"User", .belongsTo, some 10, none⟩, none⟩),
    ("comments", ⟨"comments", "comments", .collection, none, false, false, false, false,
      none, some ⟨none, none, none, none, none, ["post_id"], .hasMany, "Comment"⟩⟩)]
  index := ⟨none, ["author"]⟩

theorem obtained_post : post.Obtained := by
  refine .checked (j := postJson) ?_ (by decide +kernel)
  simp [postJson, Json.everywhere_obj_iff, Json.everywhere_arr_iff, Json.HasDistinctLabels]

theorem ofCharacters_post : post.OfCharacters := by
  simp [Schema.OfCharacters, post, Schema.toJson, Field.toJson, Reference.toJson,
    Connection.toJson, Index.toJson, Json.ofOption, Json.texts]

theorem hasShortLimits_post : post.HasShortLimits := by
  simp [Schema.HasShortLimits, post, Schema.toJson, Field.toJson, Reference.toJson,
    Connection.toJson, Index.toJson, Json.ofOption, Json.IsShortInteger]
  decide +kernel

theorem load_saved_post :
    ∃ files : FileTree, FileTree.empty.save defaultPath (bytes post) = (files, none) ∧
      ∃ content loaded, files.read defaultPath = .ok content ∧
        load .standard defaultPath content = .ok loaded ∧ loaded = post ∧
          ∀ {tree tree' : FileTree} {q : Path}, tree.save q (bytes loaded) = (tree', none) →
            tree'.read q = .ok content := by
  have hs : (FileTree.empty.save defaultPath (bytes post)).2 = none := by decide +kernel
  exact ⟨_, Prod.ext rfl hs,
    load_saved obtained_post ofCharacters_post hasShortLimits_post (Prod.ext rfl hs)⟩

end Snapshot

end CanonicalSchema
