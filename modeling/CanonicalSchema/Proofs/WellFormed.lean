import CanonicalSchema.Proofs.Acceptance
import CanonicalSchema.Proofs.Entries
import CanonicalSchema.Schema.Check
import Mathlib.Data.List.Forall2

/-!
What is accepted as a schema. The look through the fields that stops at the first fault finds none
exactly where every field is under its name and no two share a target name, and every accepted
draft whose table repeats no key gives a well-formed schema.
-/

namespace CanonicalSchema

open Checked

namespace Schema

/-! The rules of a whole schema -/

/-- `seen` stands for the fields that have been passed. -/
theorem misplaced?_eq_none_iff {model : String} {seen : Entries Text String}
    {fields : Entries Text Field} :
    misplaced? model seen fields = none ↔
      (∀ e ∈ fields, e.1 = .ofString e.2.name) ∧ (fields.values.map Field.targetName).Nodup ∧
        ∀ e ∈ fields, e.2.targetName ∉ seen.keys := by
  induction fields generalizing seen with
  | nil => simp [misplaced?, Entries.values]
  | cons e rest ih =>
    obtain ⟨key, f⟩ := e
    unfold misplaced?
    by_cases hk : key = .ofString f.name
    · rw [if_neg (by simpa using hk)]
      cases hg : seen.get? f.targetName with
      | some first =>
        have hs : f.targetName ∈ seen.keys :=
          Entries.contains_iff.1 (by simp [Entries.contains, hg])
        simp [hs]
      | none =>
        have hs : f.targetName ∉ seen.keys := by
          rw [← Entries.contains_iff]
          simp [Entries.contains, hg]
        simp only [ih, Entries.keys_put, if_neg hs, Entries.values_cons, List.map_cons,
          List.nodup_cons, List.forall_mem_cons, List.mem_append, List.mem_singleton, not_or]
        constructor
        · rintro ⟨hkeys, hnodup, hseen⟩
          refine ⟨⟨hk, hkeys⟩, ⟨?_, hnodup⟩, hs, fun e he => (hseen e he).1⟩
          intro hmem
          obtain ⟨g, hg, htarget⟩ := List.mem_map.1 hmem
          obtain ⟨e, he, rfl⟩ := List.mem_map.1 hg
          exact (hseen e he).2 htarget
        · rintro ⟨⟨-, hkeys⟩, ⟨hnew, hnodup⟩, -, hseen⟩
          refine ⟨hkeys, hnodup, fun e he => ⟨hseen e he, ?_⟩⟩
          intro htarget
          exact hnew (htarget ▸ List.mem_map_of_mem (List.mem_map_of_mem he))
    · rw [if_pos hk]
      simp [hk]

theorem brokenRule?_eq_none_iff {s : Schema} :
    brokenRule? s = none ↔
      (∀ e ∈ s.fields, e.1 = .ofString e.2.name) ∧
        (s.fields.values.map Field.targetName).Nodup ∧
          (s.fields.values.filter Field.isPrimaryKey).length ≤ 1 := by
  have hm : misplaced? s.name [] s.fields = none ↔ (∀ e ∈ s.fields, e.1 = .ofString e.2.name) ∧
      (s.fields.values.map Field.targetName).Nodup := by
    rw [misplaced?_eq_none_iff]
    simp [Entries.keys]
  have hlength : (primaryKeyNames s.fields).length =
      (s.fields.values.filter Field.isPrimaryKey).length := by
    simp [primaryKeyNames]
  unfold brokenRule?
  cases hr : misplaced? s.name [] s.fields with
  | some rule =>
    rw [hr] at hm
    simp only [reduceCtorEq, false_iff]
    rintro ⟨hkeys, hnodup, -⟩
    simp_all
  | none =>
    obtain ⟨hkeys, hnodup⟩ := hm.1 hr
    simp only [hlength]
    split
    · next h =>
      simp only [reduceCtorEq, false_iff]
      rintro ⟨-, -, hp⟩
      omega
    · next h => exact ⟨fun _ => ⟨hkeys, hnodup, by omega⟩, fun _ => rfl⟩

theorem keys_eq_names_iff {fields : Entries Text Field} :
    (fields.keys = fields.values.map fun f => Text.ofString f.name) ↔
      ∀ e ∈ fields, e.1 = .ofString e.2.name := by
  induction fields with
  | nil => simp [Entries.keys, Entries.values]
  | cons e rest ih => simp [ih]

theorem wellFormed_iff {s : Schema} (hn : s.fields.keys.Nodup) :
    s.WellFormed ↔ brokenRule? s = none := by
  rw [brokenRule?_eq_none_iff]
  constructor
  · intro h
    exact ⟨keys_eq_names_iff.1 h.keys_eq_names, h.targets_nodup, h.primaryKeys_le_one⟩
  · rintro ⟨hkeys, htargets, hp⟩
    exact ⟨keys_eq_names_iff.2 hkeys, hn, htargets, hp⟩

/-! Tables -/

/-- What an entry of a table is accepted as. -/
def ChecksTo (given : Key × FieldSource) (entry : Text × Field) : Prop :=
  given.1 = .str entry.1 ∧ given.2.check = .accepted entry.2

theorem checkEntry_eq_accepted_iff {key : Key} {source : FieldSource} {entry : Text × Field} :
    checkEntry key source = .accepted entry ↔ ChecksTo (key, source) entry := by
  have hk : ∀ t, checkKey key = .accepted t ↔ key = .str t := by
    intro t
    cases key <;> simp [checkKey]
  unfold checkEntry ChecksTo
  simp only [under_eq_accepted_iff, seq_eq_accepted_iff, map_eq_accepted_iff, hk]
  constructor
  · rintro ⟨_, ⟨t, ht, rfl⟩, f, hf, rfl⟩
    exact ⟨ht, hf⟩
  · rintro ⟨ht, hf⟩
    exact ⟨_, ⟨entry.1, ht, rfl⟩, entry.2, hf, rfl⟩

theorem checkTable_entries_iff {es : Entries Key FieldSource} {fields : Entries Text Field} :
    checkTable (.entries es) = .accepted fields ↔ List.Forall₂ ChecksTo es fields := by
  unfold checkTable
  rw [all_eq_accepted_iff]
  induction es generalizing fields with
  | nil => cases fields <;> simp
  | cons e es ih =>
    cases fields with
    | nil => simp
    | cons entry fields =>
      rw [List.map_cons, List.map_cons, List.cons.injEq, ih, checkEntry_eq_accepted_iff,
        List.forall₂_cons]

/-- What a described field of an object is accepted as, under its label. -/
def Accepts (given : Text × Json) (entry : Text × Field) : Prop :=
  given.1 = entry.1 ∧ Field.check given.2 = .accepted entry.2

theorem checkTable_tableOf_iff {members : Entries Text Json} {fields : Entries Text Field} :
    checkTable (Draft.tableOf (.obj members)) = .accepted fields ↔
      List.Forall₂ Accepts members fields := by
  have hone : (fun m e => ChecksTo ((Key.str m.1, FieldSource.described m.2)) e) = Accepts := by
    funext m e
    simp [ChecksTo, Accepts, FieldSource.check]
  unfold Draft.tableOf
  rw [checkTable_entries_iff, List.forall₂_map_left_iff, hone]

theorem keys_of_checksTo {es : Entries Key FieldSource} {fields : Entries Text Field}
    (h : List.Forall₂ ChecksTo es fields) : es.keys = fields.keys.map .str := by
  induction h with
  | nil => rfl
  | cons hd _ ih => rw [Entries.keys_cons, Entries.keys_cons, List.map_cons, ih, hd.1]

end Schema

def FieldTable.Distinct : FieldTable → Prop
  | .entries es => es.keys.Nodup
  | _ => True

theorem FieldTable.nodup_of_accepted {table : FieldTable} {fields : Entries Text Field}
    (hd : table.Distinct) (h : Schema.checkTable table = .accepted fields) :
    fields.keys.Nodup := by
  cases table with
  | absent =>
    cases h
    simp [Entries.keys]
  | entries es =>
    have hk := Schema.keys_of_checksTo (Schema.checkTable_entries_iff.1 h)
    exact List.Nodup.of_map Key.str (hk ▸ hd)
  | notTable => cases h

/-! Drafts, attribute by attribute -/

namespace Draft

def checkName (d : Draft) : Checked String :=
  match d.name with
  | some j => nonEmptyText j
  | none => fail .missing

def checkTargetName (d : Draft) : Checked Text :=
  match d.targetName with
  | some j => text j
  | none => accepted ("" : String)

def checkIndex (d : Draft) : Checked Index :=
  match d.index with
  | some source => source.check
  | none => accepted Index.empty

theorem checkAttributes_eq_accepted_iff {d : Draft} {s : Schema} :
    d.checkAttributes = .accepted s ↔
      d.checkName = .accepted s.name ∧ d.checkTargetName = .accepted s.targetName ∧
        Schema.checkTable d.table = .accepted s.fields ∧ d.checkIndex = .accepted s.index ∧
          d.others = [] := by
  change Schema.mk <$> d.checkName.under (.label "name")
    <*> d.checkTargetName.under (.label "target_model_name")
    <*> (Schema.checkTable d.table).under (.label d.tableLabel)
    <*> d.checkIndex.under (.label "model_index")
    <* noOthers d.others = .accepted s ↔ _
  simp only [seqLeft_eq_accepted_iff, seq_eq_accepted_iff, map_eq_accepted_iff,
    under_eq_accepted_iff, noOthers_eq_accepted_iff]
  constructor
  · rintro ⟨⟨_, ⟨_, ⟨_, ⟨n, hn, rfl⟩, t, ht, rfl⟩, fs, hfs, rfl⟩, i, hi, rfl⟩, -, ho⟩
    exact ⟨hn, ht, hfs, hi, ho⟩
  · rintro ⟨hn, ht, hfs, hi, ho⟩
    exact ⟨⟨_, ⟨_, ⟨_, ⟨s.name, hn, rfl⟩, s.targetName, ht, rfl⟩, s.fields, hfs, rfl⟩,
      s.index, hi, rfl⟩, (), ho⟩

@[simp] theorem normalize_table (d : Draft) : d.normalize.table = d.table := by
  unfold normalize
  split <;> rfl

@[simp] theorem normalize_checkIndex (d : Draft) : d.normalize.checkIndex = d.checkIndex := by
  unfold normalize
  split <;> rfl

@[simp] theorem normalize_others (d : Draft) : d.normalize.others = d.others := by
  unfold normalize
  split <;> rfl

theorem check_eq_ok_iff {d : Draft} {s : Schema} :
    d.check = .ok s ↔ d.normalize.checkAttributes = .accepted s ∧ Schema.brokenRule? s = none := by
  unfold check
  cases h : d.normalize.checkAttributes with
  | rejected is => simp
  | accepted s' =>
    simp only [accepted_inj]
    cases hr : Schema.brokenRule? s' with
    | some rule =>
      simp only [reduceCtorEq, false_iff]
      rintro ⟨rfl, hn⟩
      rw [hr] at hn
      contradiction
    | none =>
      constructor
      · intro hs
        cases hs
        exact ⟨rfl, hr⟩
      · rintro ⟨rfl, -⟩
        rfl

theorem wellFormed_of_check {d : Draft} {s : Schema} (hd : d.table.Distinct)
    (h : d.check = .ok s) : s.WellFormed := by
  obtain ⟨ha, hr⟩ := check_eq_ok_iff.1 h
  obtain ⟨-, -, htable, -, -⟩ := checkAttributes_eq_accepted_iff.1 ha
  rw [normalize_table] at htable
  exact (Schema.wellFormed_iff (FieldTable.nodup_of_accepted hd htable)).2 hr

end Draft

end CanonicalSchema
