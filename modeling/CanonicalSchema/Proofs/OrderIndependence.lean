import CanonicalSchema.Proofs.Construction
import CanonicalSchema.Proofs.Differences
import CanonicalSchema.Schema.Extraction
import CanonicalSchema.Schema.Fingerprint
import Mathlib.Data.List.Perm.Basic

/-!
The order in which fields are given decides nothing but itself: whether a schema is built, and all
that is computed from its canonical order, is the same for every order.
-/

namespace CanonicalSchema

namespace Schema

variable {s t : Schema}

/-- Nothing that is computed from the canonical order tells the two apart. -/
structure Alike (s t : Schema) : Prop where
  same : s.same t = true
  sortedFields : s.sortedFields = t.sortedFields
  fieldNames : s.fieldNames = t.fieldNames
  targetNames : s.targetNames = t.targetNames
  primaryKey : s.primaryKey? = t.primaryKey?
  foreignKeys : s.foreignKeys = t.foreignKeys
  connections : s.connections = t.connections
  fingerprint : s.fingerprint = t.fingerprint
  unchanged : (Difference.between s t).hasChanges = false
  unchanged_back : (Difference.between t s).hasChanges = false
  extract : ∀ (α : Type) (i : Instance α), s.extract i = t.extract i

theorem payload_eq (h : s.Reordered t) (hs : s.WellFormed) : s.payload = t.payload := by
  unfold payload
  rw [h.name, h.targetName, h.sortedFields_eq hs, h.index]

theorem extract_eq (h : s.Reordered t) (hs : s.WellFormed) {α : Type} (i : Instance α) :
    s.extract i = t.extract i := by
  have hvalue : s.fieldValue i = t.fieldValue i := by
    funext f
    unfold fieldValue
    rw [h.name]
  unfold extract isInstance
  rw [h.name, h.sortedFields_eq hs, hvalue]

theorem Reordered.alike (h : s.Reordered t) (hs : s.WellFormed) : s.Alike t := by
  have ht := h.wellFormed hs
  have hsorted := h.sortedFields_eq hs
  have hpayload := payload_eq h hs
  constructor
  case same => exact (same_iff_reordered hs ht).2 h
  case sortedFields => exact hsorted
  case unchanged => exact (Difference.unchanged_iff hs ht).2 ⟨h.fields, h.index⟩
  case unchanged_back =>
    exact (Difference.unchanged_iff ht hs).2 ⟨h.fields.symm, h.index.symm⟩
  case extract => exact fun α i => extract_eq h hs i
  case fingerprint =>
    unfold fingerprint payloadText
    rw [hpayload]
  all_goals simp only [fieldNames, targetNames, primaryKey?, foreignKeys, connections, hsorted]

theorem Reordered.field?_eq (h : s.Reordered t) (hs : s.WellFormed) (n : Text) :
    s.field? n = t.field? n :=
  Entries.get?_eq_of_perm h.fields hs.keys_nodup n

/-- Two attempts that both fail, or that yield schemas which nothing but the order of their fields
tells apart. -/
inductive Agree {ε : Type} : Except ε Schema → Except ε Schema → Prop
  | built {s t : Schema} (alike : s.Alike t) (field : ∀ n, s.field? n = t.field? n) :
      Agree (.ok s) (.ok t)
  | failed (e f : ε) : Agree (.error e) (.error f)

namespace Agree

variable {ε ε' : Type} {x y : Except ε Schema}

theorem of_reordered (hxy : ∀ s, x = .ok s → ∃ t, y = .ok t ∧ s.Reordered t ∧ s.WellFormed)
    (hyx : ∀ t, y = .ok t → ∃ s, x = .ok s) : Agree x y := by
  cases x with
  | ok s =>
    obtain ⟨t, rfl, hr, hs⟩ := hxy s rfl
    exact built (hr.alike hs) (hr.field?_eq hs)
  | error e =>
    cases y with
    | ok t =>
      obtain ⟨s, hs⟩ := hyx t rfl
      contradiction
    | error f => exact failed e f

theorem mapError (h : Agree x y) (f g : ε → ε') : Agree (x.mapError f) (y.mapError g) := by
  cases h with
  | built alike field => exact built alike field
  | failed e e' => exact failed (f e) (g e')

end Agree

end Schema

/-! Drafts whose tables hold the same entries -/

namespace Draft

theorem checkTable_of_perm {es fs : Entries Key FieldSource} {fields : Entries Text Field}
    (hp : es.Perm fs) (h : Schema.checkTable (.entries es) = .accepted fields) :
    ∃ fields', Schema.checkTable (.entries fs) = .accepted fields' ∧ fields.Perm fields' := by
  have h := Schema.checkTable_entries_iff.1 h
  obtain ⟨fields', hf, hp'⟩ := List.perm_comp_forall₂ hp.symm h
  exact ⟨fields', Schema.checkTable_entries_iff.2 hf, hp'.symm⟩

theorem normalize_withTable (d : Draft) (table : FieldTable) :
    { d with table := table }.normalize = { d.normalize with table := table } := by
  unfold normalize
  split <;> rfl

theorem check_of_attributes {d e : Draft} {s : Schema} (hd : d.table.Distinct)
    (hc : d.check = .ok s) (h : d.normalize.checkAttributes = .accepted s →
      ∃ t, e.normalize.checkAttributes = .accepted t ∧ s.Reordered t) :
    ∃ t, e.check = .ok t ∧ s.Reordered t ∧ s.WellFormed := by
  have hs := wellFormed_of_check hd hc
  obtain ⟨t, ht, hr⟩ := h (check_eq_ok_iff.1 hc).1
  have hrules := (Schema.wellFormed_iff (hr.wellFormed hs).keys_nodup).1 (hr.wellFormed hs)
  exact ⟨t, check_eq_ok_iff.2 ⟨ht, hrules⟩, hr, hs⟩

theorem check_of_perm {d : Draft} {es fs : Entries Key FieldSource} {s : Schema}
    (htable : d.table = .entries es) (hp : es.Perm fs) (hn : es.keys.Nodup) (h : d.check = .ok s) :
    ∃ t, { d with table := .entries fs }.check = .ok t ∧ s.Reordered t ∧ s.WellFormed := by
  refine check_of_attributes (by rw [htable]; exact hn) h fun ha => ?_
  obtain ⟨hname, htarget, hfields, hindex, hothers⟩ := checkAttributes_eq_accepted_iff.1 ha
  rw [normalize_table, htable] at hfields
  obtain ⟨fields, hfields, hperm⟩ := checkTable_of_perm hp hfields
  refine ⟨{ s with fields := fields }, ?_, ⟨rfl, rfl, hperm, rfl⟩⟩
  rw [normalize_withTable]
  exact checkAttributes_eq_accepted_iff.2 ⟨hname, htarget, hfields, hindex, hothers⟩

end Draft

namespace Description

/-- The same description but for the order in which the fields are given. -/
structure Reordered (d e : Description) : Prop where
  name : d.name = e.name
  targetName : d.targetName = e.targetName
  index : d.index = e.index
  options : d.options = e.options
  fields : ∃ es fs, d.fields.read = .ok es ∧ e.fields.read = .ok fs ∧ es.Perm fs ∧ es.keys.Nodup

variable {d e : Description} {depth : Depth} {s : Schema}

theorem Reordered.symm (h : d.Reordered e) : e.Reordered d := by
  obtain ⟨hname, htarget, hindex, hoptions, es, fs, hd, he, hp, hn⟩ := h
  exact ⟨hname.symm, htarget.symm, hindex.symm, hoptions.symm, fs, es, he, hd, hp.symm,
    (Entries.keys_perm hp).nodup hn⟩

theorem unknownIndexFields_eq {t : Schema} (h : s.Reordered t) :
    unknownIndexFields s = unknownIndexFields t := by
  unfold unknownIndexFields
  simp only [h.index, h.contains_eq]

theorem Reordered.exists_build (h : d.Reordered e) (hb : d.build depth = .ok s) :
    ∃ t, e.build depth = .ok t ∧ s.Reordered t ∧ s.WellFormed := by
  obtain ⟨hname, htarget, hindex, hoptions, es, fs, hd, he, hp, hn⟩ := h
  obtain ⟨hc, hstrict⟩ := build_eq_ok_iff.1 hb
  obtain ⟨index, es', hi, hd', hc⟩ := checked_eq_ok_iff.1 hc
  obtain rfl : es = es' := Except.ok.inj (hd ▸ hd')
  obtain ⟨t, ht, hr, hs⟩ := Draft.check_of_perm rfl hp hn hc
  have hdraft : { d.draftOf index es with table := .entries fs } = e.draftOf index fs := by
    unfold draftOf
    rw [hname, htarget]
  refine ⟨t, build_eq_ok_iff.2 ⟨?_, ?_⟩, hr, hs⟩
  · exact checked_eq_ok_iff.2 ⟨index, fs, hindex ▸ hi, he, hdraft ▸ ht⟩
  · intro hstrict'
    rw [← unknownIndexFields_eq hr]
    exact hstrict (hoptions ▸ hstrict')

theorem Reordered.build_ok (h : d.Reordered e) (hb : d.build depth = .ok s) :
    ∃ t, e.build depth = .ok t ∧ s.Alike t := by
  obtain ⟨t, ht, hr, hs⟩ := h.exists_build hb
  exact ⟨t, ht, hr.alike hs⟩

theorem Reordered.agree (h : d.Reordered e) : Schema.Agree (d.build depth) (e.build depth) := by
  refine Schema.Agree.of_reordered (fun s hs => h.exists_build hs) fun t ht => ?_
  obtain ⟨s, hs, -⟩ := h.symm.exists_build ht
  exact ⟨s, hs⟩

/-- Both builds give schemas that nothing but the order of the fields tells apart, or both fail. -/
theorem build_reordered (h : d.Reordered e) :
    (∃ s t, d.build depth = .ok s ∧ e.build depth = .ok t ∧ s.Alike t) ∨
      ∃ f g, d.build depth = .error f ∧ e.build depth = .error g := by
  cases hd : d.build depth with
  | ok s =>
    obtain ⟨t, ht, ha⟩ := h.build_ok hd
    exact Or.inl ⟨s, t, rfl, ht, ha⟩
  | error f =>
    cases he : e.build depth with
    | ok t =>
      obtain ⟨s, hs, -⟩ := h.symm.build_ok he
      rw [hd] at hs
      contradiction
    | error g => exact Or.inr ⟨f, g, rfl, rfl⟩

def postWith (es : Entries Key FieldSource) : Description where
  name := .str "Post"
  targetName := .null
  fields := .table es
  index := .tuple [.str "byTitle", .arr [.str "title"]]
  options := { strictIndex := true, narrowIntegralNumbers := false }

def titleEntry : Key × FieldSource :=
  (.str "title", .ready ⟨"title", "Title", .string, none, true, false, false, false, none, none⟩)

def keyEntry : Key × FieldSource :=
  (.str "id", .described (.obj [("name", .str "id"), ("declared_type", .str "id"),
    ("is_primary_key", .bool true)]))

theorem build_post_reordered :
    (postWith [titleEntry, keyEntry]).Reordered (postWith [keyEntry, titleEntry]) ∧
      ∃ s t, (postWith [titleEntry, keyEntry]).build .standard = .ok s ∧
        (postWith [keyEntry, titleEntry]).build .standard = .ok t ∧ s.Alike t := by
  have h : (postWith [titleEntry, keyEntry]).Reordered (postWith [keyEntry, titleEntry]) :=
    ⟨rfl, rfl, rfl, rfl, _, _, rfl, rfl, List.Perm.swap _ _ _, by decide⟩
  have hok : ((postWith [titleEntry, keyEntry]).build .standard).isOk = true := by decide +kernel
  refine ⟨h, (build_reordered h).resolve_right ?_⟩
  rintro ⟨f, g, hf, -⟩
  rw [hf] at hok
  contradiction

end Description

end CanonicalSchema
