import CanonicalSchema.Field.Order
import CanonicalSchema.Proofs.Entries
import CanonicalSchema.Proofs.Text
import CanonicalSchema.Schema.Basic

/-!
The sort key is a strict total order, and fields of different names have different keys. Hence a
list of such fields has one canonical order, however it was given.
-/

namespace CanonicalSchema

namespace SortKey

variable {a b c : SortKey}

theorem before_iff : a.before b = true ↔
    (a.primaryKey = false ∧ b.primaryKey = true) ∨
    (a.primaryKey = b.primaryKey ∧ a.plain = false ∧ b.plain = true) ∨
    (a.primaryKey = b.primaryKey ∧ a.plain = b.plain ∧ Text.le b.name a.name = false) := by
  obtain ⟨p, q, n⟩ := a
  obtain ⟨p', q', n'⟩ := b
  cases p <;> cases p' <;> cases q <;> cases q' <;> simp [before]

theorem before_irrefl (a : SortKey) : a.before a = false := by
  simp [before, Text.le_refl]

theorem before_trans (hab : a.before b = true) (hbc : b.before c = true) :
    a.before c = true := by
  rw [before_iff] at *
  rcases hab with ⟨ha, hb⟩ | ⟨hp, ha, hb⟩ | ⟨hp, hq, hn⟩ <;>
    rcases hbc with ⟨hb', hc⟩ | ⟨hp', hb', hc⟩ | ⟨hp', hq', hn'⟩ <;> simp_all
  exact Text.not_le_trans hn hn'

theorem eq_of_not_before (hab : a.before b = false) (hba : b.before a = false) : a = b := by
  obtain ⟨p, q, n⟩ := a
  obtain ⟨p', q', n'⟩ := b
  cases p <;> cases p' <;> cases q <;> cases q' <;> simp [before] at hab hba ⊢
  all_goals exact Text.ofString_inj.1 (Text.le_antisymm hba hab)

theorem before_or_before (hne : a ≠ b) : a.before b = true ∨ b.before a = true := by
  cases hab : a.before b
  · cases hba : b.before a
    · exact absurd (eq_of_not_before hab hba) hne
    · exact Or.inr rfl
  · exact Or.inl rfl

theorem not_before_trans (hba : b.before a = false) (hcb : c.before b = false) :
    c.before a = false := by
  by_cases hab : a = b
  · rw [hab]
    exact hcb
  · have h : a.before b = true := (before_or_before hab).resolve_right (by simp [hba])
    cases hca : c.before a
    · rfl
    · rw [before_trans hca h] at hcb
      contradiction

theorem not_before_total (a b : SortKey) : a.before b = false ∨ b.before a = false := by
  cases hab : a.before b
  · exact Or.inl rfl
  · cases hba : b.before a
    · exact Or.inr rfl
    · have h := before_trans hab hba
      rw [before_irrefl] at h
      contradiction

end SortKey

namespace Field

variable {fs gs : List Field}

theorem sort_perm (fs : List Field) : (sort fs).Perm fs := List.mergeSort_perm fs _

theorem sort_pairwise (fs : List Field) :
    (sort fs).Pairwise fun a b => b.sortKey.before a.sortKey = false := by
  have h : (sort fs).Pairwise fun a b => (!b.sortKey.before a.sortKey) = true := by
    apply List.pairwise_mergeSort
    · intro a b c hab hbc
      simp only [Bool.not_eq_true'] at *
      exact SortKey.not_before_trans hab hbc
    · intro a b
      simpa [or_comm] using SortKey.not_before_total a.sortKey b.sortKey
  simpa only [Bool.not_eq_true'] using h

theorem eq_of_name_eq {f g : Field} (hn : (fs.map name).Nodup) (hf : f ∈ fs) (hg : g ∈ fs)
    (h : f.name = g.name) : f = g :=
  List.inj_on_of_nodup_map hn hf hg h

theorem sort_eq_of_perm (hp : fs.Perm gs) (hn : (fs.map name).Nodup) : sort fs = sort gs := by
  have hperm : (sort fs).Perm (sort gs) :=
    (sort_perm fs).trans (hp.trans (sort_perm gs).symm)
  apply List.Perm.eq_of_pairwise _ (sort_pairwise fs) (sort_pairwise gs) hperm
  intro f g hf hg hfg hgf
  have hk : f.sortKey = g.sortKey := SortKey.eq_of_not_before hgf hfg
  have hf' : f ∈ fs := (sort_perm fs).mem_iff.1 hf
  have hg' : g ∈ fs := hp.mem_iff.2 ((sort_perm gs).mem_iff.1 hg)
  exact eq_of_name_eq hn hf' hg' (congrArg SortKey.name hk)

/-- A field without anything special about it. -/
def plain (name : String) (targetName : Text) : Field :=
  ⟨name, targetName, .string, none, false, false, false, false, none, none⟩

end Field

end CanonicalSchema
