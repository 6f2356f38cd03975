import CanonicalSchema.Proofs.CanonicalView
import CanonicalSchema.Proofs.Patch
import Mathlib.Data.List.Pairwise

/-!
When the order of the fields has changed. A difference says so exactly where two fields of both
versions compare differently before and after; so a field that moved was itself changed in what the
order looks at first, and new or dropped fields move none.
-/

namespace CanonicalSchema

theorem eq_iff_of_strict {α : Type} {r r' : α → α → Prop} {l l' : List α} (hp : l.Perm l')
    (hl : l.Pairwise r) (hl' : l'.Pairwise r') (hr : ∀ a b, r a b → ¬ r b a)
    (hr' : ∀ a b, r' a b → ¬ r' b a) :
    l = l' ↔ ∀ a ∈ l, ∀ b ∈ l, r a b ↔ r' a b := by
  constructor
  · rintro rfl
    -- Agreement in both directions is symmetric, so that the pairs as they stand are enough.
    have hsymm : Std.Symm fun a b => (r a b ↔ r' a b) ∧ (r b a ↔ r' b a) :=
      ⟨fun _ _ h => h.symm⟩
    have hboth : ∀ a ∈ l, ∀ b ∈ l, (r a b ↔ r' a b) ∧ (r b a ↔ r' b a) := by
      apply List.Pairwise.forall_of_forall
      · intro a _
        have hself : r a a ↔ r' a a := iff_of_false (fun h => hr a a h h) fun h => hr' a a h h
        exact ⟨hself, hself⟩
      · refine (hl.and hl').imp fun {a b} h => ?_
        exact ⟨iff_of_true h.1 h.2, iff_of_false (hr a b h.1) (hr' a b h.2)⟩
    exact fun a ha b hb => (hboth a ha b hb).1
  · intro h
    have hl'r : l'.Pairwise r := hl'.imp_of_mem fun ha hb hab =>
      (h _ (hp.mem_iff.2 ha) _ (hp.mem_iff.2 hb)).2 hab
    apply List.Perm.eq_of_pairwise _ hl hl'r hp
    exact fun a b _ _ hab hba => absurd hba (hr a b hab)

namespace Field

variable {f g f' g' : Field}

theorem Precedes.asymm (h : f.Precedes g) : ¬ g.Precedes f := by
  rw [precedes_iff] at h ⊢
  intro h'
  have hself := SortKey.before_trans h h'
  rw [SortKey.before_irrefl] at hself
  contradiction

theorem compare_eq_lt_iff : f.compare g = .lt ↔ f.Precedes g := by
  rw [precedes_iff]
  unfold compare
  constructor
  · intro h
    split at h
    · contradiction
    · split at h
      · assumption
      · contradiction
  · intro h
    have hnot : ¬ g.sortKey.before f.sortKey = true := by
      rw [← precedes_iff] at h ⊢
      exact h.asymm
    rw [if_neg hnot, if_pos h]

theorem compare_congr (h : f.Precedes g ↔ f'.Precedes g') (h' : g.Precedes f ↔ g'.Precedes f') :
    f.compare g = f'.compare g' := by
  simp only [precedes_iff] at h h'
  unfold compare
  simp only [h, h']

theorem flags_of_compare_ne (hf : f.name = f'.name) (hg : g.name = g'.name)
    (h : f.compare g ≠ f'.compare g') :
    (f.isPrimaryKey ≠ f'.isPrimaryKey ∨ f.isConnected ≠ f'.isConnected) ∨
      (g.isPrimaryKey ≠ g'.isPrimaryKey ∨ g.isConnected ≠ g'.isConnected) := by
  by_contra hsame
  simp only [not_or, not_not] at hsame
  have hkf : f.sortKey = f'.sortKey := by
    unfold sortKey
    rw [hf, hsame.1.1, hsame.1.2]
  have hkg : g.sortKey = g'.sortKey := by
    unfold sortKey
    rw [hg, hsame.2.1, hsame.2.2]
  apply h
  unfold compare
  rw [hkf, hkg]

end Field

namespace Schema

variable {s : Schema} {x y : String} {f g : Field}

def Before (s : Schema) (x y : String) : Prop :=
  ∃ f g, s.field? x = some f ∧ s.field? y = some g ∧ f.Precedes g

theorem before_iff (hf : s.field? x = some f) (hg : s.field? y = some g) :
    s.Before x y ↔ f.Precedes g := by
  unfold Before
  simp [hf, hg]

theorem Before.asymm (h : s.Before x y) : ¬ s.Before y x := by
  obtain ⟨f, g, hf, hg, hfg⟩ := h
  rw [before_iff hg hf]
  exact hfg.asymm

namespace WellFormed

theorem name_of_field? (h : s.WellFormed) (hf : s.field? x = some f) : f.name = x :=
  (h.get?_eq_some_iff.1 hf).2

theorem field?_name (h : s.WellFormed) (hf : f ∈ s.sortedFields) :
    s.field? f.name = some f :=
  h.get?_eq_some_iff.2 ⟨mem_sortedFields_iff.1 hf, rfl⟩

theorem fieldNames_before (h : s.WellFormed) : s.fieldNames.Pairwise s.Before := by
  unfold fieldNames
  rw [List.pairwise_map]
  refine h.sortedFields_precedes.imp_of_mem fun {f g} hf hg hfg => ?_
  exact ⟨f, g, h.field?_name hf, h.field?_name hg, hfg⟩

end WellFormed

end Schema

namespace Difference

variable {old new : Schema}

def commonNames (old new : Schema) : List String :=
  old.fieldNames.filter fun n => new.fields.contains n

theorem mem_commonNames_iff (ho : old.WellFormed) {n : String} :
    n ∈ commonNames old new ↔ ∃ f f', old.field? n = some f ∧ new.field? n = some f' := by
  unfold commonNames
  rw [List.mem_filter, Schema.mem_fieldNames_iff ho, Entries.contains, Entries.contains,
    Option.isSome_iff_exists, Option.isSome_iff_exists]
  exact exists_and_exists_comm

theorem commonNames_perm (ho : old.WellFormed) (hn : new.WellFormed) :
    (commonNames old new).Perm (commonNames new old) := by
  apply (List.perm_ext_iff_of_nodup (ho.nodup_fieldNames.filter _)
    (hn.nodup_fieldNames.filter _)).2
  intro n
  change n ∈ commonNames old new ↔ n ∈ commonNames new old
  rw [mem_commonNames_iff ho, mem_commonNames_iff hn, exists_comm]
  simp only [and_comm]

theorem orderChanged_eq_false_iff (ho : old.WellFormed) (hn : new.WellFormed) :
    (between old new).orderChanged = false ↔
      ∀ x ∈ commonNames old new, ∀ y ∈ commonNames old new, old.Before x y ↔ new.Before x y := by
  have hlists : (between old new).orderChanged = false ↔
      commonNames old new = commonNames new old := by
    change (commonNames old new != commonNames new old) = false ↔ _
    simp
  rw [hlists]
  exact eq_iff_of_strict (commonNames_perm ho hn) (ho.fieldNames_before.filter _)
    (hn.fieldNames_before.filter _) (fun _ _ h => h.asymm) fun _ _ h => h.asymm

/-- Two fields of both versions that compare differently before and after. -/
def Rearranged (old new : Schema) (x y : String) : Prop :=
  ∃ f g f' g', old.field? x = some f ∧ old.field? y = some g ∧ new.field? x = some f' ∧
    new.field? y = some g' ∧ f.compare g ≠ f'.compare g'

theorem orderChanged_iff_rearranged (ho : old.WellFormed) (hn : new.WellFormed) :
    (between old new).orderChanged = true ↔ ∃ x y, Rearranged old new x y := by
  rw [← not_iff_not, Bool.not_eq_true, orderChanged_eq_false_iff ho hn, not_exists]
  simp only [not_exists, mem_commonNames_iff ho]
  constructor
  · rintro h x y ⟨f, g, f', g', hf, hg, hf', hg', hne⟩
    have hxy := h x ⟨f, f', hf, hf'⟩ y ⟨g, g', hg, hg'⟩
    have hyx := h y ⟨g, g', hg, hg'⟩ x ⟨f, f', hf, hf'⟩
    rw [Schema.before_iff hf hg, Schema.before_iff hf' hg'] at hxy
    rw [Schema.before_iff hg hf, Schema.before_iff hg' hf'] at hyx
    exact hne (Field.compare_congr hxy hyx)
  · rintro h x ⟨f, f', hf, hf'⟩ y ⟨g, g', hg, hg'⟩
    rw [Schema.before_iff hf hg, Schema.before_iff hf' hg', ← Field.compare_eq_lt_iff,
      ← Field.compare_eq_lt_iff]
    by_contra hne
    apply h x y
    exact ⟨f, g, f', g', hf, hg, hf', hg', fun he => hne (he ▸ Iff.rfl)⟩

/-- A field of both versions that is a primary key, or connected, in only one of them. -/
def Regrouped (old new : Schema) (n : String) : Prop :=
  ∃ f f', old.field? n = some f ∧ new.field? n = some f' ∧
    (f.isPrimaryKey ≠ f'.isPrimaryKey ∨ f.isConnected ≠ f'.isConnected)

theorem Rearranged.regrouped {x y : String} (ho : old.WellFormed) (hn : new.WellFormed)
    (h : Rearranged old new x y) : Regrouped old new x ∨ Regrouped old new y := by
  obtain ⟨f, g, f', g', hf, hg, hf', hg', hne⟩ := h
  have hx : f.name = f'.name := (ho.name_of_field? hf).trans (hn.name_of_field? hf').symm
  have hy : g.name = g'.name := (ho.name_of_field? hg).trans (hn.name_of_field? hg').symm
  rcases Field.flags_of_compare_ne hx hy hne with h | h
  · exact Or.inl ⟨f, f', hf, hf', h⟩
  · exact Or.inr ⟨g, g', hg, hg', h⟩

theorem Regrouped.mem_changed {n : String} (hn : new.WellFormed) (h : Regrouped old new n) :
    n ∈ (between old new).changed := by
  obtain ⟨f, f', hf, hf', hflags⟩ := h
  rw [mem_changed_iff hn, hf, hf']
  refine ⟨rfl, rfl, ?_⟩
  intro he
  cases he
  simp at hflags

/-- The order has changed exactly where two fields of both versions compare differently. Then a
changed field has become or ceased to be a primary key or connected; and the order has not changed
where the versions have the same field under every name that both have. -/
theorem orderChanged_means_rearranged (ho : old.WellFormed) (hn : new.WellFormed) :
    ((between old new).orderChanged = true ↔ ∃ x y, Rearranged old new x y) ∧
      ((between old new).orderChanged = true →
        ∃ n ∈ (between old new).changed, Regrouped old new n) ∧
      ((∀ n f f', old.field? n = some f → new.field? n = some f' → f = f') →
        (between old new).orderChanged = false) := by
  have hiff := orderChanged_iff_rearranged ho hn
  refine ⟨hiff, ?_, ?_⟩
  · intro h
    obtain ⟨x, y, hxy⟩ := hiff.1 h
    rcases hxy.regrouped ho hn with hx | hy
    · exact ⟨x, hx.mem_changed hn, hx⟩
    · exact ⟨y, hy.mem_changed hn, hy⟩
  · intro hsame
    rw [← Bool.not_eq_true, hiff]
    rintro ⟨x, y, f, g, f', g', hf, hg, hf', hg', hne⟩
    rw [hsame x f f' hf hf', hsame y g g' hg hg'] at hne
    exact hne rfl

def exchangedFields : List Field :=
  [connectedField "authors" "User", .plain "body" "body", .plain "summary" "summary",
    { Field.plain "id" "id" with isPrimaryKey := true }]

theorem orderChanged_means_rearranged_post :
    (postWith firstFields).WellFormed ∧ (postWith secondFields).WellFormed ∧
      (∃ x y, Rearranged (postWith firstFields) (postWith secondFields) x y) ∧
      (∃ n ∈ ["comments", "authors"], Regrouped (postWith firstFields) (postWith secondFields) n) ∧
      (between (postWith firstFields) (postWith exchangedFields)).orderChanged = false := by
  have hexchanged : (postWith exchangedFields).WellFormed :=
    ⟨by decide, by decide, by decide, by decide⟩
  have hkept : ∀ e ∈ (postWith firstFields).fields, ∀ e' ∈ (postWith exchangedFields).fields,
      e.1 = e'.1 → e.2 = e'.2 := by decide
  obtain ⟨hiff, hregrouped, -⟩ := orderChanged_means_rearranged wellFormed_first wellFormed_second
  obtain ⟨-, -, hsame⟩ := orderChanged_means_rearranged wellFormed_first hexchanged
  rw [between_first_second] at hiff hregrouped
  refine ⟨wellFormed_first, wellFormed_second, hiff.1 rfl, hregrouped rfl, hsame ?_⟩
  intro n f f' hf hf'
  exact hkept _ (Entries.mem_of_get? hf) _ (Entries.mem_of_get? hf') rfl

end Difference

end CanonicalSchema
