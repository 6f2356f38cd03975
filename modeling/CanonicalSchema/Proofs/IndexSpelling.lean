import CanonicalSchema.Proofs.IndexStep

/-!
The spellings of an index. A pair and every object with one label for the name and one for the
fields declare the same index, whatever else the object says and in whichever order it says it.
-/

namespace CanonicalSchema

namespace Entries

variable {κ ν : Type} [BEq κ] [LawfulBEq κ] {es rest : Entries κ ν} {k : κ} {v : ν}

theorem get?_eq_none_iff : es.get? k = none ↔ k ∉ es.keys := by
  rw [← contains_iff, contains, Option.isSome_iff_ne_none, not_not]

theorem get?_of_perm_cons (hp : es.Perm ((k, v) :: rest)) (hk : k ∉ keys rest) :
    es.get? k = some v := by
  cases hget : es.get? k with
  | none =>
    rw [get?_eq_none_iff, (keys_perm hp).mem_iff] at hget
    exact absurd List.mem_cons_self hget
  | some w =>
    rcases List.mem_cons.1 (hp.mem_iff.1 (mem_of_get? hget)) with he | hmem
    · cases he
      rfl
    · exact absurd (List.mem_map_of_mem hmem) hk

end Entries

namespace IndexDeclaration

def partLabels : List Text := ["name", "index_name", "fields", "index_field_names"]

/-- The declarations that give a name and fields: as a pair, or under one label each in an object,
which may hold anything under other labels. Fields in an array stand for any sequence of them. -/
inductive Spells (name fields : Json) : IndexDeclaration → Prop
  | pair : Spells name fields (.pair name fields)
  | members {ms others : Entries Text Json} {nameLabel fieldsLabel : Text}
      (hn : nameLabel = .ofString "name" ∨ nameLabel = .ofString "index_name")
      (hf : fieldsLabel = .ofString "fields" ∨ fieldsLabel = .ofString "index_field_names")
      (ho : ∀ l ∈ others.keys, l ∉ partLabels)
      (hp : ms.Perm ((nameLabel, name) :: (fieldsLabel, fields) :: others)) :
      Spells name fields (.value (.obj ms))

variable {depth : Depth} {name fields : Json} {ms rest : Entries Text Json} {d : IndexDeclaration}

theorem memberOr_of_perm {label other present : Text} {j default : Json}
    (hp : ms.Perm ((present, j) :: rest)) (hl : present = label ∨ present = other)
    (hr : ∀ l ∈ rest.keys, l ≠ label ∧ l ≠ other) : memberOr ms label other default = j := by
  have hpresent : ms.get? present = some j := by
    apply Entries.get?_of_perm_cons hp
    intro hmem
    exact hl.elim (hr present hmem).1 (hr present hmem).2
  unfold memberOr
  rcases hl with rfl | rfl
  · rw [hpresent]
    rfl
  · by_cases hlabel : label = present
    · rw [hlabel, hpresent]
      rfl
    · have hnone : ms.get? label = none := by
        rw [Entries.get?_eq_none_iff, (Entries.keys_perm hp).mem_iff, Entries.keys_cons,
          List.mem_cons, not_or]
        exact ⟨hlabel, fun hmem => (hr label hmem).1 rfl⟩
      rw [hnone]
      simp [hpresent]

/-- Which spelling was chosen, how the labels are ordered and what else is said does not matter. -/
theorem Spells.resolve_eq (h : Spells name fields d) :
    d.resolve depth = ofParts name fields := by
  cases h with
  | pair => rfl
  | @members ms others nameLabel fieldsLabel hn hf ho hp =>
    have hfieldsLabel : fieldsLabel ≠ .ofString "name" ∧ fieldsLabel ≠ .ofString "index_name" := by
      rcases hf with rfl | rfl <;> decide
    have hnameLabel : nameLabel ≠ .ofString "fields" ∧
        nameLabel ≠ .ofString "index_field_names" := by
      rcases hn with rfl | rfl <;> decide
    have hname : memberOr ms "name" "index_name" .null = name := by
      apply memberOr_of_perm hp hn
      rw [Entries.keys_cons, List.forall_mem_cons]
      refine ⟨hfieldsLabel, fun l hl => ?_⟩
      have hl := ho l hl
      simp only [partLabels, List.mem_cons, not_or] at hl
      exact ⟨hl.1, hl.2.1⟩
    have hfields : memberOr ms "fields" "index_field_names" (.arr []) = fields := by
      apply memberOr_of_perm (hp.trans (.swap _ _ _)) hf
      rw [Entries.keys_cons, List.forall_mem_cons]
      refine ⟨hnameLabel, fun l hl => ?_⟩
      have hl := ho l hl
      simp only [partLabels, List.mem_cons, not_or] at hl
      exact ⟨hl.2.2.1, hl.2.2.2.1⟩
    unfold resolve
    simp only [hname, hfields]

theorem spells_toJson (i : Index) :
    Spells (.ofOption .str i.name) (.arr (i.fields.map .str)) (.value i.toJson) :=
  .members (.inr rfl) (.inr rfl) (List.forall_mem_nil _) (.refl _)

theorem Spells.resolve_texts {name : Option Text} {fields : List Text}
    (h : Spells (.ofOption .str name) (.arr (fields.map .str)) d) :
    d.resolve depth = .ok ⟨name, fields⟩ :=
  h.resolve_eq.trans (resolve_pair_texts depth name fields)

theorem resolve_toJson (i : Index) : (value i.toJson).resolve depth = .ok i :=
  (spells_toJson i).resolve_texts

theorem isEmpty_iff {i : Index} : i.isEmpty = true ↔ i.name = none ∧ i.fields = [] := by
  simp [Index.isEmpty]

/-- An index is what it was declared to be, in each spelling of its name and its fields, the pair
that a builder makes of its index step among them, and so are the ready index and what the index is
written as. Hence declaring what a declaration yields yields it once more. A text is never taken as
the fields. -/
theorem spellings_agree (depth : Depth) (name : Option Text) (fields : List Text) :
    (∀ d : IndexDeclaration, Spells (.ofOption .str name) (.arr (fields.map .str)) d →
      d.resolve depth = .ok ⟨name, fields⟩) ∧
    (∀ b : Builder, (b.setIndex (.ofOption .str name)
      (.arr (fields.map .str))).1.description.index.resolve depth = .ok ⟨name, fields⟩) ∧
    (ready ⟨name, fields⟩).resolve depth = .ok ⟨name, fields⟩ ∧
    Spells (.ofOption .str name) (.arr (fields.map .str)) (.value (Index.toJson ⟨name, fields⟩)) ∧
    (∀ (d : IndexDeclaration) (i : Index), d.resolve depth = .ok i →
      (ready i).resolve depth = .ok i ∧ (value i.toJson).resolve depth = .ok i) ∧
    ((Index.mk name fields).isEmpty = true ↔ name = none ∧ fields = []) ∧
    ∀ (j : Json) (s : Text) (d : IndexDeclaration), Spells j (.str s) d →
      d.resolve depth = .error (.textAsIndexFields (Quoted.text s)) := by
  refine ⟨fun d h => h.resolve_texts, ?_, rfl, spells_toJson ⟨name, fields⟩, ?_, isEmpty_iff, ?_⟩
  · intro b
    rw [Builder.description_setIndex rfl]
    exact resolve_pair_texts depth name fields
  · exact fun d i _ => ⟨rfl, resolve_toJson i⟩
  · intro j s d h
    exact h.resolve_eq

def remarked (fields : Json) : IndexDeclaration :=
  .value (.obj [("index_field_names", fields), ("remark", .arr [.str "name"]), ("name", .null)])

theorem spells_remarked (fields : Json) : Spells .null fields (remarked fields) :=
  .members (.inl rfl) (.inr rfl) (by decide) (List.perm_append_singleton _ [_, _])

theorem spellings_agree_remarked :
    (remarked (.arr [.str "title", .str "title"])).resolve .standard =
        .ok ⟨none, ["title", "title"]⟩ ∧
      (remarked (.str "")).resolve .standard = .error (.textAsIndexFields "''") := by
  obtain ⟨hspelt, -, -, -, -, -, htext⟩ := spellings_agree .standard none ["title", "title"]
  exact ⟨hspelt _ (spells_remarked _), htext _ _ _ (spells_remarked _)⟩

end IndexDeclaration

end CanonicalSchema
