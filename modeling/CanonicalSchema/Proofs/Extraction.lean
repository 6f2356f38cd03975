import CanonicalSchema.Proofs.ConstructedSchema
import CanonicalSchema.Proofs.LastWrites
import CanonicalSchema.Schema.Extraction

/-!
Taking the values out of an instance. An instance of another model is refused before any look-up;
otherwise the first field in canonical order whose look-up fails decides. Where none fails, nothing
is lost: no target name is written over another, and each leads back to the field it came from.
-/

namespace CanonicalSchema.Schema

variable {α : Type} {s : Schema} {i j : Instance α} {f : Field} {fault : LookupFault}

theorem isInstance_iff : s.isInstance i = true ↔ i.modelName = .str s.name := by
  unfold isInstance
  cases i.modelName <;> simp

/-- The look-up of a field fails, and none of those before it in canonical order does. -/
structure FirstFailing (s : Schema) (i : Instance α) (f : Field) (fault : LookupFault) :
    Prop where
  first : ∃ before after, s.sortedFields = before ++ f :: after ∧
    ∀ g ∈ before, ∃ a, i.value g.name = .ok a
  fails : i.value f.name = .error fault

/-! One field -/

theorem fieldValue_of_ok {a : α} (h : i.value f.name = .ok a) :
    s.fieldValue i f = .ok (f.targetName, a) := by
  unfold fieldValue
  rw [h]

theorem exists_fieldValue {fs : List Field} (hv : ∀ f ∈ fs, ∃ a, i.value f.name = .ok a) :
    ∀ f ∈ fs, ∃ entry, s.fieldValue i f = .ok entry := by
  intro f hf
  obtain ⟨a, ha⟩ := hv f hf
  exact ⟨_, fieldValue_of_ok ha⟩

theorem fieldValue_of_absent (h : i.value f.name = .error fault)
    (ha : ∀ label, fault.kind ≠ .other label) :
    s.fieldValue i f = .error (.mismatch (.absentField s.name f.name i.modelName fault)) := by
  have habsence : fault.isAbsence = true := by
    unfold LookupFault.isAbsence
    split
    · next label hk => exact absurd hk (ha label)
    · rfl
  unfold fieldValue
  rw [h]
  exact if_pos habsence

theorem fieldValue_of_other {label : String} (h : i.value f.name = .error fault)
    (ho : fault.kind = .other label) : s.fieldValue i f = .error (.lookup fault) := by
  have habsence : fault.isAbsence = false := by
    unfold LookupFault.isAbsence
    rw [ho]
  unfold fieldValue
  rw [h]
  exact if_neg (by simp [habsence])

theorem fieldValue_eq_ok_iff {entry : Text × α} :
    s.fieldValue i f = .ok entry ↔ f.targetName = entry.1 ∧ i.value f.name = .ok entry.2 := by
  cases h : i.value f.name with
  | ok a =>
    rw [fieldValue_of_ok h, Except.ok.injEq, Except.ok.injEq, Prod.ext_iff]
  | error fault =>
    simp only [reduceCtorEq, and_false, iff_false]
    unfold fieldValue
    rw [h]
    simp only
    split <;> simp

/-! The whole instance -/

theorem extract_of_otherModel (h : i.modelName ≠ .str s.name) :
    s.extract i = .error (.mismatch (.otherModel s.name i.modelName)) := by
  unfold extract
  rw [if_neg fun hi => h (isInstance_iff.1 hi)]

theorem extract_of_instance (h : i.modelName = .str s.name) :
    s.extract i = (s.sortedFields.mapM (s.fieldValue i)).map Entries.ofList := by
  unfold extract
  rw [if_pos (isInstance_iff.2 h)]

theorem exists_extract_eq_ok (h : i.modelName = .str s.name)
    (hv : ∀ f ∈ s.sortedFields, ∃ a, i.value f.name = .ok a) :
    ∃ values, s.extract i = .ok values := by
  obtain ⟨entries, he⟩ := Except.exists_mapM_eq_ok (exists_fieldValue (s := s) hv)
  rw [extract_of_instance h, he]
  exact ⟨_, rfl⟩

theorem FirstFailing.extract_eq {failure : ExtractionFailure} (hf : s.FirstFailing i f fault)
    (h : i.modelName = .str s.name) (hs : s.fieldValue i f = .error failure) :
    s.extract i = .error failure := by
  obtain ⟨before, after, hsorted, hb⟩ := hf.first
  rw [extract_of_instance h, hsorted, Except.mapM_of_first_error (exists_fieldValue hb) hs]
  rfl

theorem values_or_firstFailing (s : Schema) (i : Instance α) :
    (∀ f ∈ s.sortedFields, ∃ a, i.value f.name = .ok a) ∨
      ∃ f fault, s.FirstFailing i f fault := by
  rcases Except.all_ok_or_first_error (fun f : Field => i.value f.name) s.sortedFields with
    hall | ⟨before, f, after, fault, hsorted, hb, hf⟩
  · exact Or.inl hall
  · exact Or.inr ⟨f, fault, ⟨before, after, hsorted, hb⟩, hf⟩

/-- An extraction fails exactly where it should. An instance of another model is refused, whatever
its look-ups would do. Otherwise either all fields have values, and they are returned, or there is a
first one that has none: a fault that says so is reported as the cause with the name of that field,
any other fault is passed on as it is. -/
theorem extract_outcome (s : Schema) (i : Instance α) :
    (i.modelName ≠ .str s.name →
      s.extract i = .error (.mismatch (.otherModel s.name i.modelName))) ∧
    (i.modelName = .str s.name →
      ((∀ f ∈ s.sortedFields, ∃ a, i.value f.name = .ok a) ∨
        ∃ f fault, s.FirstFailing i f fault) ∧
      ((∀ f ∈ s.sortedFields, ∃ a, i.value f.name = .ok a) →
        ∃ values, s.extract i = .ok values) ∧
      ∀ f fault, s.FirstFailing i f fault →
        ((∀ label, fault.kind ≠ .other label) → s.extract i =
          .error (.mismatch (.absentField s.name f.name i.modelName fault))) ∧
        ∀ label, fault.kind = .other label → s.extract i = .error (.lookup fault)) ∧
    i.valuesFor s = s.extract i := by
  refine ⟨extract_of_otherModel, fun h => ⟨values_or_firstFailing s i, exists_extract_eq_ok h, ?_⟩,
    rfl⟩
  intro f fault hf
  constructor
  · intro ha
    exact hf.extract_eq h (fieldValue_of_absent hf.fails ha)
  · intro label ho
    exact hf.extract_eq h (fieldValue_of_other hf.fails ho)

/-- Two fields under each other's name, the later one in canonical order given first. -/
def swapped : Schema where
  name := "Post"
  targetName := "Post"
  fields := [("title", .plain "title" "author"), ("author", .plain "author" "title")]
  index := .empty

theorem sortedFields_swapped :
    swapped.sortedFields = [.plain "author" "title", .plain "title" "author"] := by
  have hperm : swapped.fields.values.Perm
      [.plain "author" "title", .plain "title" "author"] := List.Perm.swap _ _ _
  exact (Field.sort_eq_of_perm hperm (by decide)).trans (List.mergeSort_of_pairwise (by decide))

def lengths (model : String) (faults : List (String × LookupFault)) : Instance Nat where
  modelName := .str model
  value name :=
    match faults.lookup name with
    | some fault => .error fault
    | none => .ok name.length

def noAuthor : LookupFault := ⟨.key, "'author'"⟩

def brokenStore : LookupFault := ⟨.other "OSError", "broken store"⟩

theorem extract_outcome_swapped :
    swapped.extract (lengths "Draft" [("author", noAuthor)]) =
        .error (.mismatch (.otherModel "Post" (.str "Draft"))) ∧
      (∃ values, swapped.extract (lengths "Post" [("id", noAuthor)]) = .ok values) ∧
      swapped.extract (lengths "Post" [("title", brokenStore), ("author", noAuthor)]) =
        .error (.mismatch (.absentField "Post" "author" (.str "Post") noAuthor)) ∧
      swapped.extract (lengths "Post" [("title", brokenStore)]) = .error (.lookup brokenStore) := by
  have hvalues : ∀ f ∈ swapped.sortedFields,
      ∃ a, (lengths "Post" [("id", noAuthor)]).value f.name = .ok a := by
    rw [sortedFields_swapped]
    simp only [List.forall_mem_cons]
    exact ⟨⟨_, rfl⟩, ⟨_, rfl⟩, List.forall_mem_nil _⟩
  have hauthor : swapped.FirstFailing
      (lengths "Post" [("title", brokenStore), ("author", noAuthor)])
      (.plain "author" "title") noAuthor :=
    ⟨⟨[], _, sortedFields_swapped, List.forall_mem_nil _⟩, rfl⟩
  have htitle : swapped.FirstFailing (lengths "Post" [("title", brokenStore)])
      (.plain "title" "author") brokenStore :=
    ⟨⟨[.plain "author" "title"], _, sortedFields_swapped,
      List.forall_mem_cons.2 ⟨⟨_, rfl⟩, List.forall_mem_nil _⟩⟩, rfl⟩
  refine ⟨(extract_outcome swapped _).1 fun h => ?_, ?_, ?_, ?_⟩
  · exact absurd (Json.str.inj h) (by decide)
  · exact ((extract_outcome swapped _).2.1 rfl).2.1 hvalues
  · exact (((extract_outcome swapped _).2.1 rfl).2.2 _ _ hauthor).1 nofun
  · exact (((extract_outcome swapped _).2.1 rfl).2.2 _ _ htitle).2 _ rfl

/-! Nothing is lost -/

def localName? (s : Schema) (target : Text) : Option String :=
  (s.sortedFields.find? fun f => f.targetName == target).map Field.name

def renamedBack (s : Schema) (values : Entries Text α) : Entries String α :=
  values.filterMap fun e => (s.localName? e.1).map (·, e.2)

theorem WellFormed.nodup_targetNames (h : s.WellFormed) : s.targetNames.Nodup :=
  ((Field.sort_perm s.fields.values).map Field.targetName).nodup_iff.2 h.targets_nodup

theorem WellFormed.localName?_targetName (h : s.WellFormed) (hf : f ∈ s.sortedFields) :
    s.localName? f.targetName = some f.name := by
  unfold localName?
  cases hg : s.sortedFields.find? fun g => g.targetName == f.targetName with
  | none => exact absurd (beq_self_eq_true f.targetName) (List.find?_eq_none.1 hg f hf)
  | some g =>
    have htarget : g.targetName = f.targetName := by simpa using List.find?_some hg
    rw [List.inj_on_of_nodup_map h.nodup_targetNames (List.mem_of_find?_eq_some hg) hf htarget]
    rfl

theorem keys_of_fieldValue {fs : List Field} {entries : Entries Text α}
    (he : List.Forall₂ (fun f e => s.fieldValue i f = .ok e) fs entries) :
    entries.keys = fs.map Field.targetName := by
  induction he with
  | nil => rfl
  | cons hfe _ ih =>
    rw [Entries.keys_cons, List.map_cons, ih, (fieldValue_eq_ok_iff.1 hfe).1]

/-- No two fields share a target name, so nothing is written over. -/
theorem WellFormed.extract_eq_ok {entries : Entries Text α} (h : s.WellFormed)
    (hm : i.modelName = .str s.name)
    (he : List.Forall₂ (fun f e => s.fieldValue i f = .ok e) s.sortedFields entries) :
    s.extract i = .ok entries := by
  have ha : Entries.Apart entries.keys := by
    rw [keys_of_fieldValue he]
    exact Entries.apart_of_nodup h.nodup_targetNames
  rw [extract_of_instance hm, Except.mapM_eq_ok_iff.2 he, Except.map, Entries.ofList_of_apart ha]

theorem forall₂_renamedBack {fs : List Field} {entries : Entries Text α}
    (hname : ∀ f ∈ fs, s.localName? f.targetName = some f.name)
    (he : List.Forall₂ (fun f e => s.fieldValue i f = .ok e) fs entries) :
    List.Forall₂ (fun f e => e.1 = f.name ∧ i.value f.name = .ok e.2) fs
      (s.renamedBack entries) := by
  induction he with
  | nil => exact .nil
  | @cons f e fs entries hfe _ ih =>
    rw [List.forall_mem_cons] at hname
    obtain ⟨htarget, hvalue⟩ := fieldValue_eq_ok_iff.1 hfe
    have hcons : s.renamedBack (e :: entries) = (f.name, e.2) :: s.renamedBack entries := by
      unfold renamedBack
      rw [List.filterMap_cons_some]
      rw [← htarget, hname.1]
      rfl
    rw [hcons]
    exact .cons ⟨rfl, hvalue⟩ (ih hname.2)

theorem extract_congr (hm : i.modelName = j.modelName)
    (hv : ∀ f ∈ s.sortedFields, i.value f.name = j.value f.name) : s.extract i = s.extract j := by
  have hfields : ∀ f ∈ s.sortedFields, s.fieldValue i f = s.fieldValue j f := by
    intro f hf
    unfold fieldValue
    rw [hv f hf, hm]
  unfold extract isInstance
  rw [hm, Except.mapM_congr hfields]

/-- Whatever values an instance has for the fields come out of it, each once and as it is, under the
target names in canonical order, and the local names can be put back. Two instances with the same
values for the fields yield the same, whatever else they hold. -/
theorem extract_lossless (h : s.Constructed) :
    (∀ i : Instance α, i.modelName = .str s.name →
      (∀ f ∈ s.sortedFields, ∃ a, i.value f.name = .ok a) →
      ∃ values, s.extract i = .ok values ∧ values.keys = s.targetNames ∧ values.keys.Nodup ∧
        values.length = s.fields.length ∧
        List.Forall₂ (fun f e => e.1 = f.name ∧ i.value f.name = .ok e.2) s.sortedFields
          (s.renamedBack values)) ∧
    ∀ i j : Instance α, i.modelName = .str s.name → j.modelName = .str s.name →
      (∀ f ∈ s.sortedFields, i.value f.name = j.value f.name) → s.extract i = s.extract j := by
  have hw : s.WellFormed := h.normal.wellFormed
  refine ⟨fun i hm hv => ?_, fun i j hi hj hv => extract_congr (hi.trans hj.symm) hv⟩
  obtain ⟨entries, he⟩ := Except.exists_mapM_eq_ok (exists_fieldValue (s := s) hv)
  rw [Except.mapM_eq_ok_iff] at he
  have hkeys : Entries.keys entries = s.targetNames := keys_of_fieldValue he
  refine ⟨entries, hw.extract_eq_ok hm he, hkeys, hkeys ▸ hw.nodup_targetNames, ?_, ?_⟩
  · calc entries.length = s.sortedFields.length := he.length_eq.symm
      _ = s.fields.values.length := (Field.sort_perm _).length_eq
      _ = s.fields.length := List.length_map _
  · exact forall₂_renamedBack (fun _ hf => hw.localName?_targetName hf) he

def swappedDescription : Description where
  name := .str "Post"
  targetName := .null
  fields := .loose (.obj [
    ("title", .obj [("name", .str "title"), ("target_name", .str "author"),
      ("declared_type", .str "string")]),
    ("author", .obj [("name", .str "author"), ("target_name", .str "title"),
      ("declared_type", .str "string")])])
  index := .absent
  options := .standard

theorem constructed_swapped : swapped.Constructed := by
  have hb : swappedDescription.build .standard = .ok swapped :=
    Description.build_eq_ok_iff.2 ⟨by decide +kernel, nofun⟩
  exact .built (Description.fromJson_of_loose rfl) hb

theorem extract_lossless_swapped :
    swapped.Constructed ∧
      (∃ values, swapped.extract (lengths "Post" []) = .ok values ∧
        values.keys = ["title", "author"] ∧
        List.Forall₂ (fun f e => e.1 = f.name ∧ (lengths "Post" []).value f.name = .ok e.2)
          swapped.sortedFields (swapped.renamedBack values)) ∧
      swapped.extract (lengths "Post" []) =
        swapped.extract (lengths "Post" [("id", noAuthor)]) := by
  obtain ⟨hlossless, hcongr⟩ := @extract_lossless Nat _ constructed_swapped
  have hvalues : ∀ f ∈ swapped.sortedFields, ∃ a, (lengths "Post" []).value f.name = .ok a :=
    fun f _ => ⟨f.name.length, rfl⟩
  obtain ⟨values, hv, hkeys, -, -, hback⟩ := hlossless (lengths "Post" []) rfl hvalues
  have hnames : swapped.targetNames = ["title", "author"] := by
    unfold targetNames
    rw [sortedFields_swapped]
    rfl
  refine ⟨constructed_swapped, ⟨values, hv, hkeys.trans hnames, hback⟩, hcongr _ _ rfl rfl ?_⟩
  rw [sortedFields_swapped]
  simp only [List.forall_mem_cons]
  exact ⟨rfl, rfl, List.forall_mem_nil _⟩

end CanonicalSchema.Schema
