import CanonicalSchema.CommandLine
import CanonicalSchema.Proofs.Differences
import CanonicalSchema.Proofs.Json.DistinctLabels
import CanonicalSchema.Proofs.Printing
import CanonicalSchema.Proofs.SnapshotRoundTrip

/-!
What the comparison of two schemas tells: whether they have the same fields and the same index. The
names of the models are not looked at, neither in the difference nor by the command.
-/

namespace CanonicalSchema

namespace Schema

variable {s t : Schema}

/-- The same fields, whatever their order, and the same index. -/
structure SameContent (s t : Schema) : Prop where
  fields : s.fields.sameEntries t.fields = true
  index : s.index = t.index

structure SameNames (s t : Schema) : Prop where
  name : s.name = t.name
  targetName : s.targetName = t.targetName

theorem same_iff : s.same t = true ↔ s.SameNames t ∧ s.SameContent t := by
  unfold same
  simp only [Bool.and_eq_true, beq_iff_eq]
  constructor
  · rintro ⟨⟨⟨hn, ht⟩, hf⟩, hi⟩
    exact ⟨⟨hn, ht⟩, hf, hi⟩
  · rintro ⟨⟨hn, ht⟩, hf, hi⟩
    exact ⟨⟨⟨hn, ht⟩, hf⟩, hi⟩

end Schema

theorem Difference.unchanged_iff_sameContent {old new : Schema} (ho : old.WellFormed)
    (hn : new.WellFormed) : (between old new).hasChanges = false ↔ old.SameContent new := by
  rw [unchanged_iff ho hn]
  constructor
  · rintro ⟨hp, hi⟩
    exact ⟨(Entries.sameEntries_iff_perm ho.keys_nodup hn.keys_nodup).2 hp, hi⟩
  · rintro ⟨hf, hi⟩
    exact ⟨(Entries.sameEntries_iff_perm ho.keys_nodup hn.keys_nodup).1 hf, hi⟩

/-! What the command prints -/

namespace Report

theorem output_noChanges :
    output ⟨0, [.ofString "No changes."], []⟩ = .ok ⟨0, "No changes.\n", ""⟩ := by
  decide +kernel

/-- The report of a difference can always be printed: nothing in it but names and fixed words. -/
theorem output_ofDifference (d : Difference) :
    (d.hasChanges = true ∧ ∃ stdout, (ofDifference d).output = .ok ⟨2, stdout, ""⟩) ∨
      d.hasChanges = false ∧ (ofDifference d).output = .ok ⟨0, "No changes.\n", ""⟩ := by
  unfold ofDifference
  cases d.hasChanges with
  | true =>
    refine Or.inl ⟨rfl, ?_⟩
    rw [if_pos rfl]
    apply output_of_characters
    intro line hl
    obtain ⟨s, -, rfl⟩ := List.mem_map.1 hl
    exact Text.ofCharacters_ofString s
  | false => exact Or.inr ⟨rfl, output_noChanges⟩

end Report

/-! Snapshots that are loaded -/

namespace Snapshot

variable {depth : Depth} {path : Path} {bytes : List UInt8} {s : Schema}

theorem ofJson_of_load (h : load depth path bytes = .ok s) :
    ∃ j, Json.ofBytes depth bytes = .ok j ∧ Schema.ofJson j = .ok s := by
  unfold load at h
  split at h
  · contradiction
  · next j hj => exact ⟨j, hj, Except.mapError_eq_ok_iff.1 h⟩

theorem normal_of_load (h : load depth path bytes = .ok s) : s.Normal := by
  obtain ⟨j, hj, hs⟩ := ofJson_of_load h
  exact Schema.normal_of_ofJson (Json.distinct_of_ofBytes hj) hs

end Snapshot

namespace Command

variable {depth : Depth} {files : Files} {p q : Path} {old new s : Schema}

theorem load_of_file {bytes : List UInt8} (hf : files p = .ok (some bytes))
    (hs : Snapshot.load depth p bytes = .ok s) : load depth files p = .ok s := by
  unfold load
  simp only [hf, hs]

theorem wellFormed_of_load (h : load depth files p = .ok s) : s.WellFormed := by
  unfold load at h
  split at h
  · contradiction
  · contradiction
  · split at h
    · next hs =>
      cases h
      exact (Snapshot.normal_of_load hs).wellFormed
    all_goals contradiction

theorem run_compare (ho : load depth files p = .ok old)
    (hn : load depth files q = .ok new) :
    (compare p q).run depth files =
      (Report.ofDifference (.between old new)).output.mapError .unencodable := by
  have hr : (compare p q).report depth files = .ok (Report.ofDifference (.between old new)) := by
    simp only [report, ho, hn]
    rfl
  unfold run
  rw [hr]

theorem run_compare_cases (ho : load depth files p = .ok old)
    (hn : load depth files q = .ok new) :
    (¬ old.SameContent new ∧ ∃ stdout, (compare p q).run depth files = .ok ⟨2, stdout, ""⟩) ∨
      old.SameContent new ∧ (compare p q).run depth files = .ok ⟨0, "No changes.\n", ""⟩ := by
  have hd := Difference.unchanged_iff_sameContent (wellFormed_of_load ho) (wellFormed_of_load hn)
  rw [run_compare ho hn]
  rcases Report.output_ofDifference (.between old new) with ⟨hc, stdout, hout⟩ | ⟨hc, hout⟩
  · refine Or.inl ⟨?_, stdout, by rw [hout]; rfl⟩
    rw [← hd, hc]
    exact Bool.noConfusion
  · exact Or.inr ⟨hd.1 hc, by rw [hout]; rfl⟩

end Command

/-! When the difference is as fine as equality -/

/-- The difference finds every change but one of the names alone: it decides whether two schemas
are equal exactly where those with the same fields and the same index have the same names too. -/
theorem Difference.finds_all_but_names (old new : Schema) :
    (old.WellFormed → new.WellFormed →
      ((between old new).hasChanges = false ↔ old.SameContent new) ∧
        (((between old new).hasChanges = false ↔ old.same new = true) ↔
          (old.SameContent new → old.SameNames new))) ∧
    ∀ (depth : Depth) (files : Command.Files) (p q : Path),
      Command.load depth files p = .ok old → Command.load depth files q = .ok new →
        ∃ out, (Command.compare p q).run depth files = .ok out ∧
          (out.exitCode = 2 ↔ ¬ old.SameContent new) ∧
          (out.exitCode = 0 ∧ out.stdout = "No changes.\n" ↔ old.SameContent new) ∧
          ((out.exitCode = 2 ↔ old.same new = false) ↔
            (old.SameContent new → old.SameNames new)) := by
  constructor
  · intro ho hn
    have hd := unchanged_iff_sameContent ho hn
    refine ⟨hd, ?_⟩
    rw [hd, Schema.same_iff]
    constructor
    · exact fun h hc => (h.1 hc).1
    · exact fun h => ⟨fun hc => ⟨h hc, hc⟩, fun hs => hs.2⟩
  · intro depth files p q ho hn
    have hsame : old.same new = false ↔ (old.SameContent new → ¬ old.SameNames new) := by
      rw [← Bool.not_eq_true, Schema.same_iff]
      exact ⟨fun h hc hs => h ⟨hs, hc⟩, fun h hs => h hs.2 hs.1⟩
    rw [hsame]
    rcases Command.run_compare_cases ho hn with ⟨hc, stdout, hout⟩ | ⟨hc, hout⟩
    · refine ⟨_, hout, ?_, ?_, ?_⟩ <;> simp [hc]
    · refine ⟨_, hout, ?_, ?_, ?_⟩ <;> simp [hc]

namespace Difference

def bare (name : String) : Schema := ⟨name, .ofString name, [], .empty⟩

theorem bare_wellFormed (name : String) : (bare name).WellFormed :=
  ⟨rfl, List.nodup_nil, List.nodup_nil, Nat.zero_le 1⟩

theorem bare_ofCharacters (name : String) : (bare name).OfCharacters := by
  simp [Schema.OfCharacters, bare, Schema.toJson, Index.toJson, Index.empty, Json.ofOption,
    Json.texts]

theorem bare_hasShortLimits (name : String) : (bare name).HasShortLimits := by
  simp [Schema.HasShortLimits, bare, Schema.toJson, Index.toJson, Index.empty, Json.ofOption]

theorem load_bare {name : String} (hn : name ≠ "") (depth : Depth) (p : Path) :
    Snapshot.load depth p (Snapshot.bytes (bare name)) = .ok (bare name) := by
  apply Snapshot.load_bytes
  · exact ⟨bare_wellFormed name, hn, Text.isEmpty_ofString hn, by simp [bare]⟩
  · exact bare_ofCharacters name
  · exact bare_hasShortLimits name

def oldPath : Path := ⟨false, ["old.json"]⟩

def newPath : Path := ⟨false, ["new.json"]⟩

def renamedFiles : Command.Files := fun p =>
  .ok (some (Snapshot.bytes (bare (if p = oldPath then "Post" else "Article"))))

theorem load_renamed_old (depth : Depth) :
    Command.load depth renamedFiles oldPath = .ok (bare "Post") := by
  apply Command.load_of_file _ (load_bare (by decide) depth oldPath)
  unfold renamedFiles
  rw [if_pos rfl]

theorem load_renamed_new (depth : Depth) :
    Command.load depth renamedFiles newPath = .ok (bare "Article") := by
  apply Command.load_of_file _ (load_bare (by decide) depth newPath)
  unfold renamedFiles
  rw [if_neg (by decide)]

theorem finds_all_but_names_bare :
    ((between (bare "Post") (bare "Article")).hasChanges = false ↔
        (bare "Post").SameContent (bare "Article")) ∧
      ∃ out, (Command.compare oldPath newPath).run .standard renamedFiles = .ok out ∧
        (out.exitCode = 2 ↔ ¬ (bare "Post").SameContent (bare "Article")) := by
  obtain ⟨hdiff, hrun⟩ := finds_all_but_names (bare "Post") (bare "Article")
  obtain ⟨out, hout, hcode, -, -⟩ :=
    hrun .standard renamedFiles oldPath newPath (load_renamed_old _) (load_renamed_new _)
  exact ⟨(hdiff (bare_wellFormed _) (bare_wellFormed _)).1, out, hout, hcode⟩

/-- A model that was given another name is another schema, yet the difference has no changes and
the command says so. -/
theorem renamed_model_unchanged :
    (bare "Post").WellFormed ∧ (bare "Article").WellFormed ∧
      (bare "Post").same (bare "Article") = false ∧
      (between (bare "Post") (bare "Article")).hasChanges = false ∧
      Command.load .standard renamedFiles oldPath = .ok (bare "Post") ∧
      Command.load .standard renamedFiles newPath = .ok (bare "Article") ∧
      (Command.compare oldPath newPath).run .standard renamedFiles =
        .ok ⟨0, "No changes.\n", ""⟩ := by
  refine ⟨bare_wellFormed _, bare_wellFormed _, by decide +kernel, by decide +kernel,
    load_renamed_old _, load_renamed_new _, ?_⟩
  have hold := load_renamed_old .standard
  rcases Command.run_compare_cases hold (load_renamed_new .standard) with ⟨hc, -⟩ | ⟨-, hout⟩
  · exact absurd ⟨rfl, rfl⟩ hc
  · exact hout

end Difference

end CanonicalSchema
