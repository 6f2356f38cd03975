import CanonicalSchema.Proofs.Json.SortedMembers
import CanonicalSchema.Proofs.OrderIndependence
import CanonicalSchema.Proofs.WrittenSchema

/-!
The text behind a fingerprint determines the schema but for the order in which its fields were
given. So schemas that share a fingerprint are equal, or two texts collide under the digest.
-/

namespace CanonicalSchema

open Json

/-! Records are told apart by what they are sorted to -/

theorem Labelled.sorted_inj {ms ns : Entries Text Json} {labels : List Text}
    (hm : Labelled ms labels) (hn : Labelled ns labels) (h : sorted (obj ms) = sorted (obj ns)) :
    ms.values.map sorted = ns.values.map sorted := by
  apply sorted_obj_inj (hm.keys.trans hn.keys.symm) _ h
  rw [hm.keys]
  exact hm.nodup

theorem sorted_ofOption_inj {α : Type} {write : α → Json} {o o' : Option α}
    (hn : ∀ a, sorted (write a) ≠ null)
    (hw : ∀ a b, sorted (write a) = sorted (write b) → a = b)
    (h : sorted (ofOption write o) = sorted (ofOption write o')) : o = o' := by
  cases o with
  | none =>
    cases o' with
    | none => rfl
    | some b => exact absurd h.symm (hn b)
  | some a =>
    cases o' with
    | none => exact absurd h (hn a)
    | some b => rw [hw a b h]

theorem sorted_optionalText_inj {o o' : Option Text}
    (h : sorted (ofOption str o) = sorted (ofOption str o')) : o = o' := by
  refine sorted_ofOption_inj ?_ ?_ h
  · exact fun _ => Json.noConfusion
  · exact fun _ _ hab => str.inj hab

theorem sorted_optionalLimit_inj {o o' : Option Nat}
    (h : sorted (ofOption (fun n : Nat => int n) o) = sorted (ofOption (fun n : Nat => int n) o')) :
    o = o' := by
  refine sorted_ofOption_inj ?_ ?_ h
  · exact fun _ => Json.noConfusion
  · exact fun _ _ hab => Int.ofNat.inj (int.inj hab)

theorem sorted_texts_inj {ts ts' : List Text}
    (h : sorted (arr (ts.map str)) = sorted (arr (ts'.map str))) : ts = ts' := by
  rw [sorted_arr, sorted_arr, List.map_map, List.map_map] at h
  exact List.map_injective_iff.2 (fun _ _ h => str.inj h) (arr.inj h)

theorem sorted_string_inj {s t : String} (h : sorted (str s) = sorted (str t)) : s = t :=
  Text.ofString_inj.1 (str.inj h)

theorem Reference.sorted_toJson_inj {r r' : Reference} (h : sorted r.toJson = sorted r'.toJson) :
    r = r' := by
  have hv := (labelled_members r).sorted_inj (labelled_members r') h
  simp only [members, Entries.values, List.map_cons, List.map_nil, List.cons.injEq, and_true] at hv
  obtain ⟨htarget, hkind, hlimit, hsort⟩ := hv
  obtain ⟨target, kind, limit, sortField⟩ := r
  rw [mk.injEq]
  exact ⟨sorted_string_inj htarget, LinkKind.label_inj (sorted_string_inj hkind),
    sorted_optionalLimit_inj hlimit, sorted_optionalText_inj hsort⟩

theorem Connection.sorted_toJson_inj {c c' : Connection} (h : sorted c.toJson = sorted c'.toJson) :
    c = c' := by
  have hv := (labelled_members c).sorted_inj (labelled_members c') h
  simp only [members, Entries.values, List.map_cons, List.map_nil, List.cons.injEq, and_true] at hv
  obtain ⟨hname, hkeyField, hsort, hkeyName, hlimit, hfields, hkind, htarget⟩ := hv
  obtain ⟨name, keyField, sortField, keyName, limit, fields, kind, target⟩ := c
  rw [mk.injEq]
  exact ⟨sorted_optionalText_inj hname, sorted_optionalText_inj hkeyField,
    sorted_optionalText_inj hsort, sorted_optionalText_inj hkeyName,
    sorted_optionalLimit_inj hlimit, sorted_texts_inj hfields,
    LinkKind.label_inj (sorted_string_inj hkind), sorted_string_inj htarget⟩

theorem Field.sorted_toJson_inj {f f' : Field} (h : sorted f.toJson = sorted f'.toJson) :
    f = f' := by
  have hv := (labelled_members f).sorted_inj (labelled_members f') h
  simp only [members, Entries.values, List.map_cons, List.map_nil, List.cons.injEq, and_true] at hv
  obtain ⟨hname, htarget, htype, htargetType, hrequired, harray, henum, hkey, hreference,
    hconnection⟩ := hv
  obtain ⟨name, targetName, type, targetType, isRequired, isArray, isEnum, isPrimaryKey, reference,
    connection⟩ := f
  have href := sorted_ofOption_inj (fun _ => sorted_obj_ne_null _)
    (fun _ _ => Reference.sorted_toJson_inj) hreference
  have hconn := sorted_ofOption_inj (fun _ => sorted_obj_ne_null _)
    (fun _ _ => Connection.sorted_toJson_inj) hconnection
  rw [mk.injEq]
  exact ⟨sorted_string_inj hname, str.inj htarget, FieldType.label_inj (sorted_string_inj htype),
    sorted_optionalText_inj htargetType, bool.inj hrequired, bool.inj harray, bool.inj henum,
    bool.inj hkey, href, hconn⟩

theorem Index.sorted_toJson_inj {i i' : Index} (h : sorted i.toJson = sorted i'.toJson) :
    i = i' := by
  have hv := (labelled_members i).sorted_inj (labelled_members i') h
  simp only [members, Entries.values, List.map_cons, List.map_nil, List.cons.injEq, and_true] at hv
  obtain ⟨hname, hfields⟩ := hv
  obtain ⟨name, fields⟩ := i
  rw [mk.injEq]
  exact ⟨sorted_optionalText_inj hname, sorted_texts_inj hfields⟩

namespace Schema

variable {a b s : Schema}

/-! The payload of a fingerprint -/

def payloadMembers (s : Schema) : Entries Text Json := [
  ("name", .str s.name),
  ("target_model_name", .str s.targetName),
  ("fields", .arr (s.sortedFields.map Field.toJson)),
  ("model_index", s.index.toJson)]

theorem labelled_payloadMembers (s : Schema) : Labelled s.payloadMembers labels :=
  ⟨rfl, by decide, by decide⟩

theorem distinctive_toJson (hn : s.fields.keys.Nodup) (hc : s.OfCharacters) :
    s.toJson.Everywhere IsDistinctive := by
  refine Everywhere.imp ?_ ((plain_toJson hn).and hc)
  rintro v ⟨hplain, htexts⟩
  exact ⟨hplain.noFloat, htexts⟩

theorem distinctive_payload (hn : s.fields.keys.Nodup) (hc : s.OfCharacters) :
    s.payload.Everywhere IsDistinctive := by
  obtain ⟨hhere, hmembers⟩ := everywhere_obj_iff.1 (distinctive_toJson hn hc)
  simp only [List.forall_mem_cons] at hmembers
  obtain ⟨hname, htarget, hfields, hindex, -⟩ := hmembers
  have hfield : ∀ f ∈ s.sortedFields, f.toJson.Everywhere IsDistinctive := by
    intro f hf
    obtain ⟨e, he, rfl⟩ := List.mem_map.1 (mem_sortedFields_iff.1 hf)
    exact (everywhere_obj_iff.1 hfields).2 _ (List.mem_map_of_mem he)
  have hsorted : (arr (s.sortedFields.map Field.toJson)).Everywhere IsDistinctive :=
    everywhere_arr_iff.2 ⟨⟨id, by simp [texts]⟩, List.forall_mem_map.2 hfield⟩
  refine everywhere_obj_iff.2 ⟨⟨id, hhere.texts⟩, ?_⟩
  simp only [List.forall_mem_cons]
  exact ⟨hname, htarget, hsorted, hindex, List.forall_mem_nil _⟩

theorem sorted_payload_inj (h : sorted a.payload = sorted b.payload) :
    a.name = b.name ∧ a.targetName = b.targetName ∧ a.sortedFields = b.sortedFields ∧
      a.index = b.index := by
  have hv := (labelled_payloadMembers a).sorted_inj (labelled_payloadMembers b) h
  simp only [payloadMembers, Entries.values, List.map_cons, List.map_nil, List.cons.injEq,
    and_true] at hv
  obtain ⟨hname, htarget, hfields, hindex⟩ := hv
  rw [sorted_arr, sorted_arr, List.map_map, List.map_map] at hfields
  have hinj : Function.Injective (sorted ∘ Field.toJson) := fun _ _ => Field.sorted_toJson_inj
  exact ⟨sorted_string_inj hname, str.inj htarget,
    List.map_injective_iff.2 hinj (arr.inj hfields), Index.sorted_toJson_inj hindex⟩

theorem fields_perm_of_sortedFields (ha : a.WellFormed) (hb : b.WellFormed)
    (h : a.sortedFields = b.sortedFields) : a.fields.Perm b.fields := by
  have hp : a.fields.values.Perm b.fields.values := by
    have ha' := Field.sort_perm a.fields.values
    have hb' := Field.sort_perm b.fields.values
    unfold sortedFields at h
    exact ha'.symm.trans (h ▸ hb')
  rw [ha.fields_eq, hb.fields_eq]
  exact hp.map _

theorem payloadText_inj (ha : a.WellFormed) (hb : b.WellFormed) (hca : a.OfCharacters)
    (hcb : b.OfCharacters) (h : a.payloadText = b.payloadText) : a.same b = true := by
  have hs := canonicalText_inj (distinctive_payload ha.keys_nodup hca)
    (distinctive_payload hb.keys_nodup hcb) h
  obtain ⟨hname, htarget, hfields, hindex⟩ := sorted_payload_inj hs
  have hp := fields_perm_of_sortedFields ha hb hfields
  exact (same_iff_reordered ha hb).2 ⟨hname, htarget, hp, hindex⟩

theorem payloadText_eq_of_same (ha : a.WellFormed) (hb : b.WellFormed) (h : a.same b = true) :
    a.payloadText = b.payloadText := by
  unfold payloadText
  rw [payload_eq ((same_iff_reordered ha hb).1 h) ha]

/-! The digest, in hexadecimal digits -/

theorem hexBytes_inj {bs cs : List UInt8}
    (h : bs.flatMap (fun b => Digits.writeHex 2 b.toNat) =
      cs.flatMap (fun c => Digits.writeHex 2 c.toNat)) : bs = cs := by
  induction bs generalizing cs with
  | nil =>
    cases cs with
    | nil => rfl
    | cons c cs => simp [Digits.writeHex] at h
  | cons b bs ih =>
    cases cs with
    | nil => simp [Digits.writeHex] at h
    | cons c cs =>
      rw [List.flatMap_cons, List.flatMap_cons] at h
      obtain ⟨hd, htail⟩ := List.append_inj h (by simp [Digits.writeHex])
      have hv := congrArg Digits.readHex? hd
      have hwidth : Nat.pow 16 2 = 256 := rfl
      rw [Digits.readHex?_writeHex, Digits.readHex?_writeHex, Option.some.injEq, hwidth] at hv
      have hb := b.toNat_lt
      have hc := c.toNat_lt
      have hbc : b = c := UInt8.toNat_inj.1 (by omega)
      rw [hbc, ih htail]

theorem digest_eq_of_fingerprint (h : a.fingerprint = b.fingerprint) :
    Sha256.digest (Utf8.encode a.payloadText) = Sha256.digest (Utf8.encode b.payloadText) := by
  have hl := congrArg String.toList h
  unfold fingerprint at hl
  rw [String.toList_ofList, String.toList_ofList] at hl
  exact hexBytes_inj hl

theorem encode_inj {s t : String} (h : Utf8.encode s = Utf8.encode t) : s = t := by
  have hd := congrArg Utf8.decode h
  rw [Utf8.decode_encode, Utf8.decode_encode] at hd
  exact String.toList_inj.1 (Except.ok.inj hd)

def Collision (bs cs : List UInt8) : Prop := bs ≠ cs ∧ Sha256.digest bs = Sha256.digest cs

/-- The text behind a fingerprint is the same for two schemas exactly where they are equal. -/
theorem fingerprint_identifies (ha : a.WellFormed) (hb : b.WellFormed) (hca : a.OfCharacters)
    (hcb : b.OfCharacters) :
    (a.payloadText = b.payloadText ↔ a.same b = true) ∧
      (a.same b = true → a.fingerprint = b.fingerprint) ∧
      (a.fingerprint = b.fingerprint → a.same b = true ∨
        Collision (Utf8.encode a.payloadText) (Utf8.encode b.payloadText)) := by
  refine ⟨⟨payloadText_inj ha hb hca hcb, payloadText_eq_of_same ha hb⟩, ?_, ?_⟩
  · intro h
    unfold fingerprint
    rw [payloadText_eq_of_same ha hb h]
  · intro h
    by_cases ht : a.payloadText = b.payloadText
    · exact Or.inl (payloadText_inj ha hb hca hcb ht)
    · exact Or.inr ⟨fun he => ht (encode_inj he), digest_eq_of_fingerprint h⟩

def noteWith (fields : Entries Text Field) : Schema :=
  ⟨"\"Note\"\té😀", .ofString "notes", fields, ⟨some (.ofString "byTitle"), [.ofString "title"]⟩⟩

def titleField : Text × Field :=
  (.ofString "title", ⟨"title", .ofString "Title", .string, none, true, false, false, false,
    none, none⟩)

def keyField : Text × Field :=
  (.ofString "id", ⟨"id", .ofString "id", .id, none, true, false, false, true, none, none⟩)

theorem wellFormed_note :
    (noteWith [titleField, keyField]).WellFormed ∧ (noteWith [keyField, titleField]).WellFormed :=
  ⟨⟨by decide, by decide, by decide, by decide⟩, ⟨by decide, by decide, by decide, by decide⟩⟩

theorem ofCharacters_note :
    (noteWith [titleField, keyField]).OfCharacters ∧
      (noteWith [keyField, titleField]).OfCharacters := by
  constructor <;>
    simp [OfCharacters, noteWith, titleField, keyField, toJson, Field.toJson, Index.toJson,
      ofOption, texts]

theorem fingerprint_identifies_note :
    (noteWith [titleField, keyField]).payloadText = (noteWith [keyField, titleField]).payloadText ∧
      (noteWith [titleField, keyField]).fingerprint =
        (noteWith [keyField, titleField]).fingerprint := by
  have hs : (noteWith [titleField, keyField]).same (noteWith [keyField, titleField]) = true := by
    decide +kernel
  have h := fingerprint_identifies wellFormed_note.1 wellFormed_note.2 ofCharacters_note.1
    ofCharacters_note.2
  exact ⟨h.1.2 hs, h.2.1 hs⟩

end Schema

end CanonicalSchema
