import CanonicalSchema.Proofs.Reordering
import CanonicalSchema.Schema.Difference

/-!
What the difference of two schemas covers: together its parts look at every field and at the index.
-/

namespace CanonicalSchema.Difference

variable {old new : Schema}

theorem hasChanges_eq_false_iff {d : Difference} :
    d.hasChanges = false ↔
      d.added = [] ∧ d.removed = [] ∧ d.changed = [] ∧ d.orderChanged = false ∧
        d.indexChanged = false := by
  unfold hasChanges
  simp [and_assoc]

theorem mem_old_of_mem_new (hn : new.WellFormed) (hadded : (between old new).added = [])
    (hchanged : (between old new).changed = []) {e : Text × Field} (he : e ∈ new.fields) :
    e ∈ old.fields := by
  have hkey := hn.key_eq_name he
  have hget : new.fields.get? e.1 = some e.2 := Entries.get?_of_mem hn.keys_nodup he
  have hname := Schema.name_mem_fieldNames he
  have hold : old.fields.contains (.ofString e.2.name) = true := by
    have h := List.filter_eq_nil_iff.1 hadded _ hname
    simpa using h
  have hsame : old.field? (.ofString e.2.name) = new.field? (.ofString e.2.name) := by
    have h := List.filter_eq_nil_iff.1 hchanged _ hname
    simpa [hold] using h
  unfold Schema.field? at hsame
  rw [← hkey, hget] at hsame
  exact Entries.mem_of_get? hsame

theorem perm_of_unchanged (ho : old.WellFormed) (hn : new.WellFormed)
    (hadded : (between old new).added = []) (hremoved : (between old new).removed = [])
    (hchanged : (between old new).changed = []) : old.fields.Perm new.fields := by
  rw [List.perm_ext_iff_of_nodup (Entries.nodup_of_keys ho.keys_nodup)
    (Entries.nodup_of_keys hn.keys_nodup)]
  intro e
  constructor
  · intro he
    have hkey := ho.key_eq_name he
    have hget : old.fields.get? e.1 = some e.2 := Entries.get?_of_mem ho.keys_nodup he
    have hname := Schema.name_mem_fieldNames he
    have hnew : new.fields.contains (.ofString e.2.name) = true := by
      have h := List.filter_eq_nil_iff.1 hremoved _ hname
      simpa using h
    obtain ⟨f, hf⟩ := Option.isSome_iff_exists.1 hnew
    have hmem := Entries.mem_of_get? hf
    have hmem' := Entries.get?_of_mem ho.keys_nodup (mem_old_of_mem_new hn hadded hchanged hmem)
    rw [← hkey, hget] at hmem'
    cases hmem'
    rw [← hkey] at hmem
    exact hmem
  · exact mem_old_of_mem_new hn hadded hchanged

/-- Names are left out: only fields and the index count. -/
theorem unchanged_iff (ho : old.WellFormed) (hn : new.WellFormed) :
    (between old new).hasChanges = false ↔ old.fields.Perm new.fields ∧ old.index = new.index := by
  rw [hasChanges_eq_false_iff]
  constructor
  · rintro ⟨hadded, hremoved, hchanged, -, hindex⟩
    exact ⟨perm_of_unchanged ho hn hadded hremoved hchanged, by simpa [between] using hindex⟩
  · rintro ⟨hp, hindex⟩
    have hr : Schema.Reordered { old with name := new.name, targetName := new.targetName } new :=
      ⟨rfl, rfl, hp, hindex⟩
    have hnames : old.fieldNames = new.fieldNames :=
      congrArg (List.map Field.name) (Field.sort_eq_of_perm hr.values ho.names_nodup)
    have hin : ∀ n ∈ new.fieldNames, new.fields.contains (.ofString n) = true :=
      fun n h => (Schema.mem_fieldNames_iff hn).1 h
    have hget : ∀ k, old.field? k = new.field? k := Entries.get?_eq_of_perm hp ho.keys_nodup
    have hcontains : ∀ k, old.fields.contains k = new.fields.contains k := hr.contains_eq
    unfold between
    simp only [hnames, hget, hcontains, hindex]
    refine ⟨?_, ?_, ?_, ?_, ?_⟩ <;> simp_all

end CanonicalSchema.Difference
