import CanonicalSchema.Proofs.CharacterTexts
import CanonicalSchema.Proofs.ConstructedSchema
import CanonicalSchema.Proofs.FieldName
import CanonicalSchema.Proofs.Json.Without
import CanonicalSchema.Proofs.SnapshotRoundTrip
import Mathlib.Tactic.MkIffOfInductiveProp

/-!
Attributes may be left out of a snapshot where they have the value that they get when they are left
out, any number of them and at any depth: what is left is read as the same schema.
-/

namespace CanonicalSchema

open Checked
open Json (withoutMembers)

/-! Where the value is the one that leaving it out gives -/

@[mk_iff]
inductive Reference.HasDefaultAt (r : Reference) : List Text → Prop
  | kind (h : r.kind = .belongsTo) : HasDefaultAt r ["kind"]
  | limit (h : r.limit = none) : HasDefaultAt r ["limit"]
  | sortField (h : r.sortField = none) : HasDefaultAt r ["sort_field"]

@[mk_iff]
inductive Connection.HasDefaultAt (c : Connection) : List Text → Prop
  | name (h : c.name = none) : HasDefaultAt c ["name"]
  | keyField (h : c.keyField = none) : HasDefaultAt c ["key_field"]
  | sortField (h : c.sortField = none) : HasDefaultAt c ["sort_field"]
  | keyName (h : c.keyName = none) : HasDefaultAt c ["key_name"]
  | limit (h : c.limit = none) : HasDefaultAt c ["limit"]
  | fields (h : c.fields = []) : HasDefaultAt c ["fields"]

/-- The target name defaults to the name, and only a field of type enum is marked as one. -/
@[mk_iff]
inductive Field.HasDefaultAt (f : Field) : List Text → Prop
  | targetName (h : f.targetName = .ofString f.name) : HasDefaultAt f ["target_name"]
  | targetType (h : f.targetType = none) : HasDefaultAt f ["target_type"]
  | isRequired (h : f.isRequired = false) : HasDefaultAt f ["is_required"]
  | isArray (h : f.isArray = false) : HasDefaultAt f ["is_array"]
  | isEnum (h : f.isEnum = decide (f.type = .enum)) : HasDefaultAt f ["is_enum"]
  | isPrimaryKey (h : f.isPrimaryKey = false) : HasDefaultAt f ["is_primary_key"]
  | reference (h : f.reference = none) : HasDefaultAt f ["relationship"]
  | connection (h : f.connection = none) : HasDefaultAt f ["connection"]
  | inReference (r : Reference) (place : List Text) (hr : f.reference = some r)
      (h : r.HasDefaultAt place) : HasDefaultAt f ("relationship" :: place)
  | inConnection (c : Connection) (place : List Text) (hc : f.connection = some c)
      (h : c.HasDefaultAt place) : HasDefaultAt f ("connection" :: place)

@[mk_iff]
inductive Index.HasDefaultAt (i : Index) : List Text → Prop
  | name (h : i.name = none) : HasDefaultAt i ["index_name"]
  | fields (h : i.fields = []) : HasDefaultAt i ["index_field_names"]

@[mk_iff]
inductive Schema.HasDefaultAt (s : Schema) : List Text → Prop
  | targetName (h : s.targetName = .ofString s.name) : HasDefaultAt s ["target_model_name"]
  | fields (h : s.fields = []) : HasDefaultAt s ["fields"]
  | index (h : s.index = .empty) : HasDefaultAt s ["model_index"]
  | inField (key : Text) (f : Field) (place : List Text) (hf : (key, f) ∈ s.fields)
      (h : f.HasDefaultAt place) : HasDefaultAt s ("fields" :: key :: place)
  | inIndex (place : List Text) (h : s.index.HasDefaultAt place) :
      HasDefaultAt s ("model_index" :: place)

/-! Records of which some members are left out -/

namespace Labelled

variable {α : Type} {ms : Entries Text Json} {labels : List Text} {label : String} {j : Json}
  {check : Json → Checked α} {a : α} {out : List Text → Bool}

theorem get?_without (h : Labelled ms labels) (i : Nat)
    (hi : ms[i]? = some ((label : Text), j)) :
    Entries.get? (withoutMembers out ms) label =
      if out [(label : Text)] then none
      else some (j.without fun place => out (label :: place)) := by
  rw [Json.get?_withoutMembers, h.get? i hi]
  rfl

theorem required_without (h : Labelled ms labels) (i : Nat)
    (hi : ms[i]? = some ((label : Text), j)) (ho : ¬ out [(label : Text)] = true)
    (hc : check (j.without fun place => out (label :: place)) = accepted a) :
    Checked.required (withoutMembers out ms) label check = accepted a :=
  required_eq_accepted_iff.2 ⟨_, by rw [h.get?_without i hi, if_neg ho], hc⟩

theorem defaulted_without (h : Labelled ms labels) (i : Nat)
    (hi : ms[i]? = some ((label : Text), j)) {default : α}
    (ho : out [(label : Text)] = true → a = default)
    (hc : check (j.without fun place => out (label :: place)) = accepted a) :
    Checked.defaulted (withoutMembers out ms) label default check = accepted a := by
  rw [defaulted_eq_accepted_iff, h.get?_without i hi]
  by_cases hout : out [(label : Text)] = true
  · rw [if_pos hout]
    exact Or.inr ⟨rfl, (ho hout).symm⟩
  · rw [if_neg hout]
    exact Or.inl ⟨_, rfl, hc⟩

theorem subset_without (h : Labelled ms labels) (out : List Text → Bool) :
    Entries.keys (withoutMembers out ms) ⊆ labels :=
  List.Subset.trans (Json.keys_withoutMembers_subset out ms) h.subset

theorem characters_without (h : Labelled ms labels) (out : List Text → Bool) :
    ∀ l ∈ Entries.keys (withoutMembers out ms), l.string?.isSome :=
  fun l hl => h.areCharacters l (h.subset_without out hl)

end Labelled

variable {out : List Text → Bool}

theorem nullable_text_without (o : Option Text) :
    nullable text ((Json.ofOption .str o).without out) = accepted o := by
  rw [Json.without_ofOption]
  exact nullable_text_ofOption o

theorem nullable_positive_without {limit : Option Nat} (h : ∀ n, limit = some n → 0 < n) :
    nullable positive ((Json.ofOption (fun n : Nat => .int n) limit).without out) =
      accepted limit := by
  rw [Json.without_ofOption]
  exact nullable_positive h

theorem Reference.Normal.check_without {r : Reference} (h : r.Normal)
    (ho : ∀ place, out place = true → r.HasDefaultAt place) :
    check (r.toJson.without out) = accepted r := by
  have hl := labelled_members r
  refine check_eq_accepted_iff.2
    ⟨_, rfl, hl.characters_without out, ?_, ?_, ?_, ?_, hl.subset_without out⟩
  · refine hl.required_without 0 rfl (fun hout => ?_) ?_
    · simpa [hasDefaultAt_iff] using ho _ hout
    · exact nonEmptyText_eq_accepted_iff.2 ⟨rfl, h.target⟩
  · refine hl.defaulted_without 1 rfl (fun hout => ?_) (linkKind_label r.kind)
    simpa [hasDefaultAt_iff] using ho _ hout
  · refine hl.defaulted_without 2 rfl (fun hout => ?_) (nullable_positive_without h.limit)
    simpa [hasDefaultAt_iff] using ho _ hout
  · refine hl.defaulted_without 3 rfl (fun hout => ?_) (nullable_text_without r.sortField)
    simpa [hasDefaultAt_iff] using ho _ hout

theorem Connection.Normal.check_without {c : Connection} (h : c.Normal)
    (ho : ∀ place, out place = true → c.HasDefaultAt place) :
    check (c.toJson.without out) = accepted c := by
  have hl := labelled_members c
  refine check_eq_accepted_iff.2
    ⟨_, rfl, hl.characters_without out, ?_, ?_, ?_, ?_, ?_, ?_, ?_, ?_, hl.subset_without out⟩
  · refine hl.defaulted_without 0 rfl (fun hout => ?_) (nullable_text_without c.name)
    simpa [hasDefaultAt_iff] using ho _ hout
  · refine hl.defaulted_without 1 rfl (fun hout => ?_) (nullable_text_without c.keyField)
    simpa [hasDefaultAt_iff] using ho _ hout
  · refine hl.defaulted_without 2 rfl (fun hout => ?_) (nullable_text_without c.sortField)
    simpa [hasDefaultAt_iff] using ho _ hout
  · refine hl.defaulted_without 3 rfl (fun hout => ?_) (nullable_text_without c.keyName)
    simpa [hasDefaultAt_iff] using ho _ hout
  · refine hl.defaulted_without 4 rfl (fun hout => ?_) (nullable_positive_without h.limit)
    simpa [hasDefaultAt_iff] using ho _ hout
  · refine hl.defaulted_without 5 rfl (fun hout => ?_) (texts_map_str c.fields)
    simpa [hasDefaultAt_iff] using ho _ hout
  · refine hl.required_without 6 rfl (fun hout => ?_) (linkKind_label c.kind)
    simpa [hasDefaultAt_iff] using ho _ hout
  · refine hl.required_without 7 rfl (fun hout => ?_) ?_
    · simpa [hasDefaultAt_iff] using ho _ hout
    · exact nonEmptyText_eq_accepted_iff.2 ⟨rfl, h.target⟩

theorem Index.check_without (i : Index) (ho : ∀ place, out place = true → i.HasDefaultAt place) :
    check (i.toJson.without out) = accepted i := by
  have hl := labelled_members i
  refine check_eq_accepted_iff.2
    ⟨_, rfl, hl.characters_without out, ?_, ?_, hl.subset_without out⟩
  · refine hl.defaulted_without 0 rfl (fun hout => ?_) (nullable_text_without i.name)
    simpa [hasDefaultAt_iff] using ho _ hout
  · refine hl.defaulted_without 1 rfl (fun hout => ?_) (texts_map_str i.fields)
    simpa [hasDefaultAt_iff] using ho _ hout

/-! Fields, whose defaults are filled in before the check -/

namespace Field

variable {ms : Entries Text Json} {f : Field} {α : Type} {label : String} {c : Json → Checked α}

theorem required_normalize (ht : Text.ofString label ≠ .ofString "target_name")
    (he : Text.ofString label ≠ .ofString "is_enum") :
    required (normalize ms) label c = required ms label c :=
  required_congr (get?_normalize_of_ne ht he)

theorem defaulted_normalize {default : α} (ht : Text.ofString label ≠ .ofString "target_name")
    (he : Text.ofString label ≠ .ofString "is_enum") :
    defaulted (normalize ms) label default c = defaulted ms label default c :=
  defaulted_congr (get?_normalize_of_ne ht he)

theorem Normal.targetName_without (h : f.Normal)
    (ho : ∀ place, out place = true → f.HasDefaultAt place) :
    (normalize (withoutMembers out f.members)).get? "target_name" = some (.str f.targetName) := by
  have hl := labelled_members f
  have hname : Entries.get? (withoutMembers out f.members) "name" = some (.str f.name) := by
    rw [hl.get?_without 0 rfl, if_neg fun hout => by simpa [hasDefaultAt_iff] using ho _ hout]
    rfl
  have htarget : Entries.get? (withoutMembers out f.members) "target_name" =
      if out ["target_name"] then none else some (.str f.targetName) := hl.get?_without 1 rfl
  rw [get?_normalize_targetName hname (Text.isEmpty_ofString (ne_empty_of_isName h.name))]
  unfold isBlankAt
  rw [htarget]
  by_cases hout : out ["target_name"] = true
  · have hsame : f.targetName = .ofString f.name := by simpa [hasDefaultAt_iff] using ho _ hout
    simp [hout, hsame]
  · simp [hout, Json.isBlank, h.targetName]

theorem Normal.isEnum_without (h : f.Normal)
    (ho : ∀ place, out place = true → f.HasDefaultAt place) :
    defaulted (normalize (withoutMembers out f.members)) "is_enum" false flag =
      accepted f.isEnum := by
  have hl := labelled_members f
  have htype : Entries.get? (withoutMembers out f.members) "declared_type" =
      some (.str f.type.label) := by
    rw [hl.get?_without 2 rfl, if_neg fun hout => by simpa [hasDefaultAt_iff] using ho _ hout]
    rfl
  have hget : (normalize (withoutMembers out f.members)).get? "is_enum" =
      if f.type = .enum then some (.bool true)
      else if out ["is_enum"] then none else some (.bool f.isEnum) := by
    rw [get?_normalize (by decide), htype, hl.get?_without 6 rfl]
    by_cases ht : f.type = .enum
    · simp [ht, isEnumType]
    · have hlabel : f.type.label ≠ FieldType.enum.label := fun hlabel =>
        ht (FieldType.label_inj hlabel)
      simp [ht, isEnumType, hlabel]
  rw [defaulted_eq_accepted_iff, hget]
  by_cases ht : f.type = .enum
  · rw [if_pos ht, h.isEnum ht]
    exact Or.inl ⟨_, rfl, rfl⟩
  · rw [if_neg ht]
    by_cases hout : out ["is_enum"] = true
    · have hsame : f.isEnum = decide (f.type = .enum) := by
        simpa [hasDefaultAt_iff] using ho _ hout
      rw [if_pos hout, hsame, decide_eq_false ht]
      exact Or.inr ⟨rfl, rfl⟩
    · rw [if_neg hout]
      exact Or.inl ⟨_, rfl, rfl⟩

theorem Normal.check_without (h : f.Normal)
    (ho : ∀ place, out place = true → f.HasDefaultAt place) :
    check (f.toJson.without out) = accepted f := by
  have hl := labelled_members f
  have hreference : ∀ r, f.reference = some r → Reference.check (r.toJson.without fun place =>
      out ("relationship" :: place)) = accepted r := by
    refine fun r hr => (h.reference r hr).check_without fun place hout => ?_
    have hplace := ho _ hout
    rw [hasDefaultAt_iff] at hplace
    simpa [hr] using hplace
  have hconnection : ∀ c, f.connection = some c → Connection.check (c.toJson.without fun place =>
      out ("connection" :: place)) = accepted c := by
    refine fun c hc => (h.connection c hc).check_without fun place hout => ?_
    have hplace := ho _ hout
    rw [hasDefaultAt_iff] at hplace
    simpa [hc] using hplace
  refine check_eq_accepted_iff.2 ⟨_, rfl, hl.characters_without out, ?_, h.unbroken⟩
  refine checkMembers_eq_accepted_iff.2
    ⟨?_, ?_, ?_, ?_, ?_, ?_, h.isEnum_without ho, ?_, ?_, ?_, ?_⟩
  · rw [required_normalize (by decide) (by decide)]
    refine hl.required_without 0 rfl (fun hout => ?_) ?_
    · simpa [hasDefaultAt_iff] using ho _ hout
    · exact checkName_eq_accepted_iff.2 ⟨rfl, ne_empty_of_isName h.name, h.name⟩
  · exact defaulted_eq_accepted_iff.2 (Or.inl ⟨_, h.targetName_without ho, rfl⟩)
  · rw [required_normalize (by decide) (by decide)]
    refine hl.required_without 2 rfl (fun hout => ?_) (fieldType_eq_accepted_iff.2 rfl)
    simpa [hasDefaultAt_iff] using ho _ hout
  · rw [defaulted_normalize (by decide) (by decide)]
    refine hl.defaulted_without 3 rfl (fun hout => ?_) (nullable_text_without f.targetType)
    simpa [hasDefaultAt_iff] using ho _ hout
  · rw [defaulted_normalize (by decide) (by decide)]
    refine hl.defaulted_without 4 rfl (fun hout => ?_) rfl
    simpa [hasDefaultAt_iff] using ho _ hout
  · rw [defaulted_normalize (by decide) (by decide)]
    refine hl.defaulted_without 5 rfl (fun hout => ?_) rfl
    simpa [hasDefaultAt_iff] using ho _ hout
  · rw [defaulted_normalize (by decide) (by decide)]
    refine hl.defaulted_without 7 rfl (fun hout => ?_) rfl
    simpa [hasDefaultAt_iff] using ho _ hout
  · rw [defaulted_normalize (by decide) (by decide)]
    refine hl.defaulted_without 8 rfl (fun hout => ?_) ?_
    · simpa [hasDefaultAt_iff, Reference.hasDefaultAt_iff] using ho _ hout
    · rw [Json.without_ofOption]
      exact nullable_ofOption fun r hr => ⟨nofun, hreference r hr⟩
  · rw [defaulted_normalize (by decide) (by decide)]
    refine hl.defaulted_without 9 rfl (fun hout => ?_) ?_
    · simpa [hasDefaultAt_iff, Connection.hasDefaultAt_iff] using ho _ hout
    · rw [Json.without_ofOption]
      exact nullable_ofOption fun c hc => ⟨nofun, hconnection c hc⟩
  · rw [keys_normalize_subset_iff]
    exact hl.subset_without out

end Field

/-! Schemas -/

namespace Schema

variable {s : Schema}

theorem hasDefaultAt_field (hn : s.fields.keys.Nodup) {e : Text × Field} (he : e ∈ s.fields)
    {place : List Text} (h : s.HasDefaultAt ("fields" :: e.1 :: place)) :
    e.2.HasDefaultAt place := by
  rw [hasDefaultAt_iff] at h
  obtain ⟨key, f, he', hkey, hf⟩ : ∃ key f, (key, f) ∈ s.fields ∧ e.1 = key ∧
      f.HasDefaultAt place := by simpa using h
  cases List.inj_on_of_nodup_map hn he he' hkey
  exact hf

theorem checkTable_without {fields : Entries Text Field} (hn : ∀ e ∈ fields, e.2.Normal)
    (ho : ∀ e ∈ fields, ∀ place, out (e.1 :: place) = true → e.2.HasDefaultAt place) :
    checkTable (Draft.tableOf (.obj (withoutMembers out
      (fields.map fun e => (e.1, e.2.toJson))))) = accepted fields := by
  rw [checkTable_tableOf_iff]
  induction fields with
  | nil => exact .nil
  | cons e fields ih =>
    rw [List.forall_mem_cons] at hn ho
    have hkept : ¬ out [e.1] = true := fun hout => by
      simpa [Field.hasDefaultAt_iff] using ho.1 [] hout
    rw [List.map_cons, withoutMembers, if_neg hkept]
    exact .cons ⟨rfl, hn.1.check_without ho.1⟩ (ih hn.2 ho.2)

theorem Normal.targetName_without (h : s.Normal)
    (ho : ∀ place, out place = true → s.HasDefaultAt place) {d : Draft}
    (hname : d.name = some (.str s.name))
    (htarget : d.targetName =
      if out ["target_model_name"] then none else some (.str s.targetName)) :
    d.normalize.targetName = some (.str s.targetName) := by
  have hgiven : Draft.isGiven d.name = true := by
    rw [hname]
    simp [Draft.isGiven, Json.isBlank, Text.isEmpty_ofString h.name]
  unfold Draft.normalize
  rw [hgiven, Bool.and_true]
  by_cases hout : out ["target_model_name"] = true
  · have hsame : s.targetName = .ofString s.name := by simpa [hasDefaultAt_iff] using ho _ hout
    rw [if_pos hout] at htarget
    rw [htarget, hsame]
    exact hname
  · rw [if_neg hout] at htarget
    rw [htarget, if_neg (by simp [Draft.isGiven, Json.isBlank, h.targetName])]
    exact htarget

theorem Normal.ofJson_without (h : s.Normal)
    (ho : ∀ place, out place = true → s.HasDefaultAt place) :
    ofJson (s.toJson.without out) = .ok s := by
  have hl := labelled_members s
  have hname : Entries.get? (withoutMembers out s.members) "name" = some (.str s.name) := by
    rw [hl.get?_without 0 rfl, if_neg fun hout => by simpa [hasDefaultAt_iff] using ho _ hout]
    rfl
  refine ofJson_eq_ok_iff.2 ⟨withoutMembers out s.members, rfl, hl.characters_without out,
    Draft.check_eq_ok_iff.2 ⟨?_, (wellFormed_iff h.wellFormed.keys_nodup).1 h.wellFormed⟩⟩
  rw [ofMembers_of_known (hl.subset_without out), Draft.checkAttributes_eq_accepted_iff,
    Draft.normalize_table, Draft.normalize_checkIndex, Draft.normalize_others]
  refine ⟨?_, ?_, ?_, ?_, rfl⟩
  · rw [Draft.checkName_eq_accepted_iff, Draft.normalize_name]
    exact ⟨hname, h.name⟩
  · exact (Draft.checkTargetName_some
      (h.targetName_without ho hname (hl.get?_without 1 rfl))).2 rfl
  · rw [hl.get?_without 2 rfl]
    by_cases hout : out ["fields"] = true
    · have hnone : s.fields = [] := by simpa [hasDefaultAt_iff] using ho _ hout
      rw [if_pos hout, hnone]
      rfl
    · rw [if_neg hout]
      refine checkTable_without h.fields fun e he place hplace =>
        hasDefaultAt_field h.wellFormed.keys_nodup he (ho _ hplace)
  · unfold Draft.checkIndex
    simp only [hl.get?_without 3 rfl]
    by_cases hout : out ["model_index"] = true
    · have hempty : s.index = .empty := by
        simpa [hasDefaultAt_iff, Index.hasDefaultAt_iff] using ho _ hout
      rw [if_pos hout, hempty]
      rfl
    · rw [if_neg hout]
      refine Index.check_without s.index fun place hplace => ?_
      have hindex : s.index = .empty ∧ place = [] ∨ s.index.HasDefaultAt place := by
        simpa [hasDefaultAt_iff] using ho _ hplace
      rcases hindex with ⟨-, rfl⟩ | hindex
      · exact absurd hplace hout
      · exact hindex

end Schema

/-! Limits, which are left out only where there is none -/

open Json (HasShortInteger)

theorem shortInteger_str (t : Text) : (Json.str t).Everywhere HasShortInteger :=
  Json.everywhere_str_iff.2 nofun

theorem shortInteger_bool (b : Bool) : (Json.bool b).Everywhere HasShortInteger :=
  Json.everywhere_bool_iff.2 nofun

theorem shortInteger_null : Json.null.Everywhere HasShortInteger :=
  Json.everywhere_null_iff.2 nofun

theorem shortInteger_ofOption (o : Option Text) :
    (Json.ofOption .str o).Everywhere HasShortInteger :=
  Json.everywhere_ofOption shortInteger_null fun t _ => shortInteger_str t

theorem shortInteger_texts (ts : List Text) :
    (Json.arr (ts.map .str)).Everywhere HasShortInteger :=
  Json.everywhere_arr_iff.2 ⟨nofun, List.forall_mem_map.2 fun t _ => shortInteger_str t⟩

/-- The member holds no long integer, or it is not left out and what is left of it tells. -/
def ShowsIntegers (out : List Text → Bool) (m : Text × Json) : Prop :=
  m.2.Everywhere HasShortInteger ∨ ¬ out [m.1] = true ∧
    ((m.2.without fun place => out (m.1 :: place)).Everywhere HasShortInteger →
      m.2.Everywhere HasShortInteger)

theorem shortInteger_of_without {ms : Entries Text Json} (hm : ∀ m ∈ ms, ShowsIntegers out m)
    (h : (Json.obj (withoutMembers out ms)).Everywhere HasShortInteger) :
    (Json.obj ms).Everywhere HasShortInteger := by
  refine Json.everywhere_obj_iff.2 ⟨nofun, fun m hmem => ?_⟩
  rcases hm m hmem with hshort | ⟨hkept, hshort⟩
  · exact hshort
  · exact hshort ((Json.everywhere_obj_iff.1 h).2 _ (Json.mem_withoutMembers hmem hkept))

theorem showsIntegers_ofOption {α : Type} {label : Text} {write : α → Json} {o : Option α}
    (ho : out [label] = true → o = none)
    (h : ∀ a, o = some a →
      ((write a).without fun place => out (label :: place)).Everywhere HasShortInteger →
        (write a).Everywhere HasShortInteger) :
    ShowsIntegers out (label, Json.ofOption write o) := by
  cases o with
  | none => exact Or.inl shortInteger_null
  | some a => exact Or.inr ⟨fun hout => Option.some_ne_none a (ho hout), h a rfl⟩

theorem Reference.shortInteger_of_without {r : Reference}
    (ho : ∀ place, out place = true → r.HasDefaultAt place)
    (h : (r.toJson.without out).Everywhere HasShortInteger) :
    r.toJson.Everywhere HasShortInteger := by
  refine CanonicalSchema.shortInteger_of_without ?_ h
  simp only [List.forall_mem_cons]
  refine ⟨Or.inl (shortInteger_str _), Or.inl (shortInteger_str _),
    showsIntegers_ofOption (fun hout => ?_) fun _ _ => id, Or.inl (shortInteger_ofOption _),
    List.forall_mem_nil _⟩
  simpa [hasDefaultAt_iff] using ho _ hout

theorem Connection.shortInteger_of_without {c : Connection}
    (ho : ∀ place, out place = true → c.HasDefaultAt place)
    (h : (c.toJson.without out).Everywhere HasShortInteger) :
    c.toJson.Everywhere HasShortInteger := by
  refine CanonicalSchema.shortInteger_of_without ?_ h
  simp only [List.forall_mem_cons]
  refine ⟨Or.inl (shortInteger_ofOption _), Or.inl (shortInteger_ofOption _),
    Or.inl (shortInteger_ofOption _), Or.inl (shortInteger_ofOption _),
    showsIntegers_ofOption (fun hout => ?_) fun _ _ => id, Or.inl (shortInteger_texts _),
    Or.inl (shortInteger_str _), Or.inl (shortInteger_str _), List.forall_mem_nil _⟩
  simpa [hasDefaultAt_iff] using ho _ hout

theorem Field.shortInteger_of_without {f : Field}
    (ho : ∀ place, out place = true → f.HasDefaultAt place)
    (h : (f.toJson.without out).Everywhere HasShortInteger) :
    f.toJson.Everywhere HasShortInteger := by
  refine CanonicalSchema.shortInteger_of_without ?_ h
  simp only [List.forall_mem_cons]
  refine ⟨Or.inl (shortInteger_str _), Or.inl (shortInteger_str _), Or.inl (shortInteger_str _),
    Or.inl (shortInteger_ofOption _), Or.inl (shortInteger_bool _), Or.inl (shortInteger_bool _),
    Or.inl (shortInteger_bool _), Or.inl (shortInteger_bool _),
    showsIntegers_ofOption (fun hout => ?_) fun r hr => ?_,
    showsIntegers_ofOption (fun hout => ?_) fun c hc => ?_, List.forall_mem_nil _⟩
  · simpa [hasDefaultAt_iff, Reference.hasDefaultAt_iff] using ho _ hout
  · refine r.shortInteger_of_without fun place hout => ?_
    have hplace := ho _ hout
    rw [hasDefaultAt_iff] at hplace
    simpa [hr] using hplace
  · simpa [hasDefaultAt_iff, Connection.hasDefaultAt_iff] using ho _ hout
  · refine c.shortInteger_of_without fun place hout => ?_
    have hplace := ho _ hout
    rw [hasDefaultAt_iff] at hplace
    simpa [hc] using hplace

namespace Schema

variable {s : Schema}

/-- However much is left out, a limit that is too long stays. -/
theorem hasShortLimits_of_without (hn : s.fields.keys.Nodup)
    (ho : ∀ place, out place = true → s.HasDefaultAt place)
    (h : (s.toJson.without out).Everywhere HasShortInteger) : s.HasShortLimits := by
  refine shortInteger_of_without ?_ h
  simp only [List.forall_mem_cons]
  refine ⟨Or.inl (shortInteger_str _), Or.inl (shortInteger_str _), ?_, Or.inl ?_,
    List.forall_mem_nil _⟩
  · by_cases hout : out ["fields"] = true
    · have hnone : s.fields = [] := by simpa [hasDefaultAt_iff] using ho _ hout
      refine Or.inl (Json.everywhere_obj_iff.2 ⟨nofun, ?_⟩)
      simp [hnone]
    · refine Or.inr ⟨hout, shortInteger_of_without (List.forall_mem_map.2 fun e he => ?_)⟩
      refine Or.inr ⟨fun hkey => ?_, Field.shortInteger_of_without fun place hplace =>
        hasDefaultAt_field hn he (ho _ hplace)⟩
      simpa [Field.hasDefaultAt_iff] using hasDefaultAt_field hn he (ho _ hkey)
  · refine Json.everywhere_obj_iff.2 ⟨nofun, ?_⟩
    simp only [List.forall_mem_cons]
    exact ⟨shortInteger_ofOption _, shortInteger_texts _, List.forall_mem_nil _⟩

end Schema

namespace Snapshot

variable {s : Schema} {depth : Depth}

def bytesWithout (out : List Text → Bool) (s : Schema) : List UInt8 :=
  Utf8.encode (String.ofList ((s.toJson.without out).layout 0 ['\n']))

theorem load_of_without (h : s.Normal) (ho : ∀ place, out place = true → s.HasDefaultAt place)
    {content : List UInt8} (hcontent : Json.ofBytes depth content = .ok (s.toJson.without out))
    (path : Path) : load depth path content = .ok s := by
  unfold load
  simp only [hcontent, h.ofJson_without ho]
  rfl

theorem ofBytes_bytesWithout (hn : s.fields.keys.Nodup) (hc : s.OfCharacters)
    (hl : s.HasShortLimits) (out : List Text → Bool) (depth : Depth) :
    Json.ofBytes depth (bytesWithout out s) = .ok (s.toJson.without out) :=
  Json.ofBytes_layout (Json.readable_without (Schema.readable_toJson hn hc hl) out)
    (Json.nestsWithin_without (s.nestsWithin_depth depth) out)

/-- Whatever attributes with their defaults are left out of what is written for a schema, at any
depth and together, a file that holds the rest is loaded as that schema. The rest can be read
exactly if the limits of the schema are short. -/
theorem load_without_defaults (h : s.Constructed)
    (ho : ∀ place, out place = true → s.HasDefaultAt place) (depth : Depth) :
    (∀ path content, Json.ofBytes depth content = .ok (s.toJson.without out) →
        load depth path content = .ok s) ∧
      (s.OfCharacters →
        (s.HasShortLimits → Json.ofBytes depth (bytes s) = .ok s.toJson ∧
          Json.ofBytes depth (bytesWithout out s) = .ok (s.toJson.without out)) ∧
        ∀ path, load depth path (bytesWithout out s) = .ok s ↔ s.HasShortLimits) := by
  have hn := h.normal.wellFormed.keys_nodup
  refine ⟨fun path content hcontent => load_of_without h.normal ho hcontent path,
    fun hc => ⟨fun hl => ⟨ofBytes_bytes hn hc hl, ofBytes_bytesWithout hn hc hl out depth⟩,
      fun path => ⟨fun hload => ?_, fun hl => ?_⟩⟩⟩
  · obtain hread | ⟨digits, hb⟩ := Json.ofBytes_layout_or_stops
      (Json.spelt_without (Schema.spelt_toJson hn hc) out)
      (Json.nestsWithin_without (s.nestsWithin_depth depth) out)
    · exact Schema.hasShortLimits_of_without hn ho (hread.imp fun _ hv => hv.integer)
    · unfold load at hload
      rw [show Json.ofBytes depth (bytesWithout out s) = _ from hb] at hload
      cases hload
  · exact load_of_without h.normal ho (ofBytes_bytesWithout hn hc hl out depth) path

def ticketJson : Json := .obj [
  ("name", .str "Ticket"),
  ("fields", .obj [
    ("status", .obj [("name", .str "status"), ("declared_type", .str "enum")]),
    ("owner", .obj [("name", .str "owner"), ("declared_type", .str "model"),
      ("relationship", .obj [("target_model", .str "User")])]),
    ("comments", .obj [("name", .str "comments"), ("declared_type", .str "collection"),
      ("connection", .obj [("relationship", .str "has_many"),
        ("connection_target", .str "Comment")])])])]

def ticket : Schema where
  name := "Ticket"
  targetName := "Ticket"
  fields := [
    ("status", ⟨"status", "status", .enum, none, false, false, true, false, none, none⟩),
    ("owner", ⟨"owner", "owner", .model, none, false, false, false, false,
      some ⟨"User", .belongsTo, none, none⟩, none⟩),
    ("comments", ⟨"comments", "comments", .collection, none, false, false, false, false, none,
      some ⟨none, none, none, none, none, [], .hasMany, "Comment"⟩⟩)]
  index := .empty

def ticketFieldDefaults (field : Text) : List (List Text) := [
  ["fields", field, "target_name"], ["fields", field, "target_type"],
  ["fields", field, "is_required"], ["fields", field, "is_array"], ["fields", field, "is_enum"],
  ["fields", field, "is_primary_key"]]

def ticketLinkDefaults : List (List Text) := [
  ["fields", "status", "relationship"], ["fields", "status", "connection"],
  ["fields", "owner", "relationship", "kind"], ["fields", "owner", "relationship", "limit"],
  ["fields", "owner", "relationship", "sort_field"], ["fields", "owner", "connection"],
  ["fields", "comments", "relationship"], ["fields", "comments", "connection", "name"],
  ["fields", "comments", "connection", "key_field"],
  ["fields", "comments", "connection", "sort_field"],
  ["fields", "comments", "connection", "key_name"], ["fields", "comments", "connection", "limit"],
  ["fields", "comments", "connection", "fields"]]

def ticketDefaults : List (List Text) :=
  ["target_model_name"] :: ["model_index"] :: ["model_index", "index_name"] ::
    (ticketFieldDefaults "status" ++ ticketFieldDefaults "owner" ++
      ticketFieldDefaults "comments" ++ ticketLinkDefaults)

theorem constructed_ticket : ticket.Constructed := by
  refine .validated (j := ticketJson) ?_ (by decide +kernel)
  simp [ticketJson, Json.everywhere_obj_iff, Json.HasDistinctLabels]

theorem hasDefaultAt_ticket (place : List Text) (h : ticketDefaults.contains place = true) :
    ticket.HasDefaultAt place := by
  revert place
  simp [ticketDefaults, ticketFieldDefaults, ticketLinkDefaults, ticket, Schema.hasDefaultAt_iff,
    Field.hasDefaultAt_iff, Reference.hasDefaultAt_iff, Connection.hasDefaultAt_iff,
    Index.hasDefaultAt_iff, Index.empty]

theorem load_without_defaults_ticket :
    ticket.toJson.without ticketDefaults.contains = ticketJson ∧
      Json.ofBytes .standard (bytesWithout ticketDefaults.contains ticket) = .ok ticketJson ∧
        load .standard defaultPath (bytesWithout ticketDefaults.contains ticket) = .ok ticket := by
  have hw : ticket.toJson.without ticketDefaults.contains = ticketJson := by rfl
  have hc : ticket.OfCharacters := by
    simp [Schema.OfCharacters, ticket, Schema.toJson, Field.toJson, Reference.toJson,
      Connection.toJson, Index.toJson, Index.empty, Json.ofOption, Json.texts]
  have hl : ticket.HasShortLimits := by
    simp [Schema.HasShortLimits, ticket, Schema.toJson, Field.toJson, Reference.toJson,
      Connection.toJson, Index.toJson, Index.empty, Json.ofOption, Json.IsShortInteger]
  obtain ⟨-, hfile⟩ := load_without_defaults constructed_ticket hasDefaultAt_ticket .standard
  obtain ⟨hread, hload⟩ := hfile hc
  exact ⟨hw, hw ▸ (hread hl).2, (hload defaultPath).2 hl⟩

/-- A limit of too many digits cannot be left out, and with it nothing is loaded, not even where
nothing is left out. -/
theorem load_without_nothing_fails :
    limited.Constructed ∧ limited.OfCharacters ∧
      bytesWithout (fun _ => false) limited = bytes limited ∧
        ∃ digits, ∀ path, load .standard path (bytes limited) =
          .error (.escaped (.document (.content (.longInteger digits)))) :=
  ⟨.validated distinctLabels_limitedJson ofJson_limitedJson, ofCharacters_limited, rfl,
    load_limited_escapes .standard⟩

end Snapshot

end CanonicalSchema
