import CanonicalSchema.Proofs.WellFormed
import CanonicalSchema.Schema.Construction

/-!
What a description is built into. A build succeeds where its index and its table can be read, the
draft of the two is accepted, and no strict option is offended. However a description is given, the
table that is read from it repeats no key, so what is built is well-formed.
-/

namespace CanonicalSchema

/-! Tables from loose material -/

instance : ReflBEq Key where
  rfl := by
    intro k
    change k.same k = true
    cases k with
    | null => rfl
    | bool b =>
      simp [Key.same, Key.toValue, Value.sameKey, Value.sameNumber, Value.number?,
        DecimalNumber.sameValue, DecimalNumber.ofInt, DecimalNumber.isNaN]
    | int n => simp [Key.same, Key.toValue, Value.sameKey]
    | float x =>
      cases hx : x.isNaN <;> simp [Key.same, Key.toValue, Key.isNaN, Value.sameKey, hx]
    | str s => simp [Key.same]

theorem Table.nodup_of_read {j : Json} {es : Entries Key Json} (h : Table.read j = .ok es) :
    es.keys.Nodup := by
  unfold Table.read at h
  split at h
  · cases h
  · cases h
    exact Entries.nodup_keys_ofList _

namespace FieldMaterial

/-- Material that repeats no key; loose material never does once it is read. -/
def Distinct : FieldMaterial → Prop
  | loose _ => True
  | table es => es.keys.Nodup

theorem keys_described (es : Entries Key Json) : Entries.keys (described es) = es.keys := by
  simp [Entries.keys, described]

theorem nodup_of_read {m : FieldMaterial} {es : Entries Key FieldSource} (hd : m.Distinct)
    (h : m.read = .ok es) : es.keys.Nodup := by
  cases m with
  | loose j =>
    unfold read at h
    obtain ⟨es', hr, h⟩ := Except.map_eq_ok_iff.1 h
    cases h
    rw [keys_described]
    exact Table.nodup_of_read hr
  | table es' =>
    cases h
    exact hd

end FieldMaterial

namespace Description

variable {d : Description} {depth : Depth} {s : Schema}

/-- The draft for an index and a table that have been read. -/
def draftOf (d : Description) (index : Index) (es : Entries Key FieldSource) : Draft where
  name := some d.name
  targetName := some (if d.targetName.isBlank then d.name else d.targetName)
  tableLabel := "fields"
  table := .entries es
  index := some (.ready index)
  others := []

theorem checked_eq_ok_iff :
    d.checked depth = .ok s ↔
      ∃ index es, d.index.resolve depth = .ok index ∧ d.fields.read = .ok es ∧
      (d.draftOf index es).check = .ok s := by
  have hdraft : ∀ draft, d.draft depth = .ok draft ↔
      ∃ index, d.index.resolve depth = .ok index ∧ ∃ es, d.fields.read = .ok es ∧
        d.draftOf index es = draft := by
    intro draft
    unfold Description.draft
    simp only [Except.bind_eq_ok_iff, pure, Except.pure, Except.ok.injEq]
    rfl
  unfold checked
  simp only [Except.bind_eq_ok_iff, hdraft, Except.mapError_eq_ok_iff]
  constructor
  · rintro ⟨_, ⟨index, hi, es, hf, rfl⟩, hc⟩
    exact ⟨index, es, hi, hf, hc⟩
  · rintro ⟨index, es, hi, hf, hc⟩
    exact ⟨_, ⟨index, hi, es, hf, rfl⟩, hc⟩

/-- The strict option refuses an index that names an unknown field. -/
def Strict (d : Description) (s : Schema) : Prop :=
  d.options.strictIndex = true → unknownIndexFields s = []

theorem build_eq_ok_iff :
    d.build depth = .ok s ↔ d.checked depth = .ok s ∧ d.Strict s := by
  unfold build Strict
  cases d.checked depth with
  | error e => simp
  | ok s' =>
    simp only [Except.ok.injEq]
    split
    · next h =>
      simp only [Bool.and_eq_true, Bool.not_eq_true', List.isEmpty_eq_false_iff] at h
      simp only [reduceCtorEq, false_iff]
      rintro ⟨rfl, hs⟩
      exact h.2 (hs h.1)
    · next h =>
      simp only [Except.ok.injEq]
      constructor
      · rintro rfl
        refine ⟨rfl, fun hs => ?_⟩
        simpa [hs] using h
      · exact fun hs => hs.1

end Description

end CanonicalSchema
