import CanonicalSchema.CommandLine.Report
import CanonicalSchema.Proofs.CharacterTexts
import CanonicalSchema.Proofs.Reordering

/-!
What can be printed. Leaving out the sequences that colour a line adds nothing to it, so a report
can be printed where its lines are made of characters, as they are in the report on a schema that
is.
-/

namespace CanonicalSchema

namespace Text

theorem join_cons_cons (between t t' : Text) (ts : List Text) :
    join between (t :: t' :: ts) = t ++ (between ++ join between (t' :: ts)) := by
  apply congrArg mk
  simp only [List.map_cons, List.intercalate_cons_cons, List.append_assoc]
  rfl

def Each (P : CodePoint → Prop) (t : Text) : Prop := ∀ p ∈ t.points, P p

variable {P : CodePoint → Prop}

theorem each_append_iff {s t : Text} : (s ++ t).Each P ↔ s.Each P ∧ t.Each P :=
  List.forall_mem_append

theorem each_join_iff {between : Text} {ts : List Text} (hb : between.Each P) :
    (join between ts).Each P ↔ ∀ t ∈ ts, t.Each P := by
  induction ts with
  | nil => simp [join, Each]
  | cons t ts ih =>
    cases ts with
    | nil =>
      change Each P ⟨List.intercalate _ [t.points]⟩ ↔ _
      rw [List.intercalate_singleton, List.forall_mem_singleton]
    | cons t' ts =>
      rw [join_cons_cons, each_append_iff, each_append_iff, ih, and_iff_right hb,
        ← List.forall_mem_cons]

theorem ofCharacters_join {between : Text} {ts : List Text} (hb : between.OfCharacters)
    (hts : ∀ t ∈ ts, t.OfCharacters) : (join between ts).OfCharacters := by
  simp only [ofCharacters_iff] at hb hts ⊢
  exact (each_join_iff hb).2 hts

end Text

namespace Report

theorem afterSequence?_subset {ps rest : List CodePoint} (h : afterSequence? ps = some rest) :
    rest ⊆ ps := by
  unfold afterSequence? at h
  split at h
  · next p r hp =>
    split at h
    · cases h
      intro q hq
      apply (List.dropWhile_suffix isParameter).subset
      rw [hp]
      exact List.mem_cons_of_mem p hq
    · contradiction
  · contradiction

theorem plain_subset (ps : List CodePoint) : plain ps ⊆ ps := by
  fun_induction plain ps with
  | case1 => exact List.Subset.refl _
  | case2 rest after h ih =>
    intro p hp
    exact List.mem_cons_of_mem _ (List.mem_cons_of_mem _ (afterSequence?_subset h (ih hp)))
  | case3 rest h ih => exact List.cons_subset_cons _ ih
  | case4 p rest h ih => exact List.cons_subset_cons _ ih

theorem ofCharacters_printed {line : Text} (h : line.OfCharacters) :
    (printed line).OfCharacters := by
  refine Text.ofCharacters_append_iff.2 ⟨?_, Text.ofCharacters_ofString "\n"⟩
  rw [Text.ofCharacters_iff] at h ⊢
  exact fun p hp => h p (plain_subset _ hp)

theorem mapM_printed {lines : List Text} (h : ∀ line ∈ lines, line.OfCharacters) :
    ∃ ss, lines.mapM (fun line => (printed line).encodable) = .ok ss :=
  Except.exists_mapM_eq_ok fun line hl => (ofCharacters_printed (h line hl)).encodable

theorem output_of_characters {r : Report} (h : ∀ line ∈ r.out, line.OfCharacters) :
    ∃ stdout, r.output = .ok ⟨r.exitCode, stdout, r.stderr⟩ := by
  obtain ⟨ss, hss⟩ := mapM_printed h
  refine ⟨String.join ss, ?_⟩
  unfold output stdout
  rw [hss]
  rfl

/-! Schemas -/

theorem ofCharacters_fieldLine {f : Field} (h : f.targetName.OfCharacters) :
    (fieldLine f).OfCharacters := by
  unfold fieldLine
  simp only
  split <;> simp [h]

theorem ofCharacters_indexLines {i : Index} (h : i.toJson.OfCharacters) :
    ∀ line ∈ indexLines i, line.OfCharacters := by
  obtain ⟨hname, hfields⟩ := Index.ofCharacters_iff.1 h
  have hjoin := Text.ofCharacters_join (Text.ofCharacters_ofString ", ") hfields
  unfold indexLines
  split
  · exact List.forall_mem_nil _
  · simp only [List.forall_mem_singleton, Text.ofCharacters_append_iff, Text.ofCharacters_ofString,
      hjoin, true_and, and_true]
    split
    · next n hn =>
      split
      · exact Text.ofCharacters_ofString "-"
      · exact hname n hn
    · exact Text.ofCharacters_ofString "-"

theorem ofCharacters_ofSchema {s : Schema} (h : s.OfCharacters) :
    ∀ line ∈ (ofSchema s).out, line.OfCharacters := by
  obtain ⟨htarget, hfields, hindex⟩ := Schema.ofCharacters_iff.1 h
  unfold ofSchema
  simp only [List.forall_mem_append]
  refine ⟨⟨⟨?_, ?_⟩, ?_⟩, ofCharacters_indexLines hindex⟩
  · simp [headLines, htarget]
  · intro line hl
    obtain ⟨f, hf, rfl⟩ := List.mem_map.1 hl
    obtain ⟨e, he, rfl⟩ := List.mem_map.1 (Schema.mem_sortedFields_iff.1 hf)
    exact ofCharacters_fieldLine (Field.ofCharacters_targetName (hfields e he).2)
  · simp [summaryLines]

end Report

end CanonicalSchema
