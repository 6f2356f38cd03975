import CanonicalSchema.Proofs.FingerprintIdentity
import CanonicalSchema.Proofs.Json.LayoutOrder
import CanonicalSchema.Proofs.StoredFiles
import CanonicalSchema.Schema.Snapshot

/-!
How far a snapshot is determined by its schema. Fields are written in the order in which they were
given, not in the canonical one, so equal schemas have one text exactly where that order is one.
-/

namespace CanonicalSchema.Snapshot

variable {s t : Schema}

theorem eq_of_keys (hs : s.WellFormed) (h : s.Reordered t) (hk : s.fields.keys = t.fields.keys) :
    s = t := by
  obtain ⟨name, targetName, fields, index⟩ := s
  obtain ⟨hname, htarget, hfields, hindex⟩ := h
  have hf := Entries.eq_of_perm_of_keys hfields hk hs.keys_nodup
  dsimp only at hname htarget hf hindex
  rw [hname, htarget, hf, hindex]

theorem characters_of_keys (hs : s.WellFormed) {k : Text} (hk : k ∈ s.fields.keys) :
    k.OfCharacters := by
  obtain ⟨e, he, rfl⟩ := List.mem_map.1 hk
  rw [hs.key_eq_name he]
  exact Text.ofCharacters_ofString _

theorem keys_toJson (fields : Entries Text Field) :
    Entries.keys (fields.map fun e => (e.1, e.2.toJson)) = fields.keys := by
  unfold Entries.keys
  rw [List.map_map]
  rfl

theorem keys_eq_of_text (hs : s.WellFormed) (h : s.Reordered t) (ht : text s = text t) :
    s.fields.keys = t.fields.keys := by
  have ht : s.toJson.layout 0 ['\n'] = t.toJson.layout 0 ['\n'] := String.ofList_injective ht
  unfold Schema.toJson at ht
  rw [← h.name, ← h.targetName, ← h.index] at ht
  obtain ⟨more, hfields⟩ := Json.layout_eq_of_member
    [("name", .str s.name), ("target_model_name", .str s.targetName)] ht
  have hk : (Entries.keys (s.fields.map fun e => (e.1, e.2.toJson))).Nodup := by
    rw [keys_toJson]
    exact hs.keys_nodup
  have hmembers := Json.eq_of_layout_obj (h.fields.map _) hk
    (fun k hk => characters_of_keys hs (by rwa [keys_toJson] at hk)) hfields
  rw [← keys_toJson s.fields, hmembers, keys_toJson]

/-- Equal schemas are saved as one text exactly where their fields were given in one order. -/
theorem saved_alike_iff (hs : s.WellFormed) (ht : t.WellFormed) (h : s.same t = true)
    {tree tree' other other' : FileTree} {p q : Path} (hp : tree.save p (bytes s) = (tree', none))
    (hq : other.save q (bytes t) = (other', none)) :
    ∃ content content', tree'.read p = .ok content ∧ other'.read q = .ok content' ∧
      (content = content' ↔ s.fields.keys = t.fields.keys) := by
  have hr := (Schema.same_iff_reordered hs ht).1 h
  refine ⟨bytes s, bytes t, FileTree.read_of_save hp, FileTree.read_of_save hq, ?_, ?_⟩
  · exact fun hb => keys_eq_of_text hs hr (Schema.encode_inj hb)
  · intro hk
    rw [eq_of_keys hs hr hk]

def pointWith (names : List String) : Description where
  name := .str "Point"
  targetName := .null
  fields := .loose (.obj (names.map fun n =>
    (.ofString n, .obj [("name", .str n), ("declared_type", .str "int")])))
  index := .absent
  options := .standard

def point (names : List String) : Schema where
  name := "Point"
  targetName := "Point"
  fields := names.map fun n =>
    (.ofString n, ⟨n, n, .int, none, false, false, false, false, none, none⟩)
  index := .empty

theorem wellFormed_point : (point ["x", "y"]).WellFormed ∧ (point ["y", "x"]).WellFormed :=
  ⟨⟨by decide, by decide, by decide, by decide⟩, ⟨by decide, by decide, by decide, by decide⟩⟩

theorem same_point : (point ["x", "y"]).same (point ["y", "x"]) = true := by decide +kernel

theorem saved_alike_iff_point :
    ∃ files other : FileTree,
      FileTree.empty.save defaultPath (bytes (point ["x", "y"])) = (files, none) ∧
      FileTree.empty.save defaultPath (bytes (point ["y", "x"])) = (other, none) ∧
      ∃ content content', files.read defaultPath = .ok content ∧
        other.read defaultPath = .ok content' ∧ content ≠ content' := by
  have hp : (FileTree.empty.save defaultPath (bytes (point ["x", "y"]))).2 = none := by
    decide +kernel
  have hq : (FileTree.empty.save defaultPath (bytes (point ["y", "x"]))).2 = none := by
    decide +kernel
  obtain ⟨content, content', hc, hc', hiff⟩ := saved_alike_iff wellFormed_point.1
    wellFormed_point.2 same_point (Prod.ext rfl hp) (Prod.ext rfl hq)
  exact ⟨_, _, Prod.ext rfl hp, Prod.ext rfl hq, content, content', hc, hc', by
    rw [Ne, hiff]
    decide⟩

theorem equal_points_differ_in_text :
    (pointWith ["x", "y"]).build .standard = .ok (point ["x", "y"]) ∧
      (pointWith ["y", "x"]).build .standard = .ok (point ["y", "x"]) ∧
      (point ["x", "y"]).same (point ["y", "x"]) = true ∧
      (point ["x", "y"]).sortedFields = (point ["y", "x"]).sortedFields ∧
      text (point ["x", "y"]) ≠ text (point ["y", "x"]) := by
  have hr := (Schema.same_iff_reordered wellFormed_point.1 wellFormed_point.2).1 same_point
  refine ⟨Description.build_eq_ok_iff.2 ⟨by decide +kernel, nofun⟩,
    Description.build_eq_ok_iff.2 ⟨by decide +kernel, nofun⟩, same_point,
    hr.sortedFields_eq wellFormed_point.1, fun ht => ?_⟩
  have hk := keys_eq_of_text wellFormed_point.1 hr ht
  revert hk
  decide

end CanonicalSchema.Snapshot
