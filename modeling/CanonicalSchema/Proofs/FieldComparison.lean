import CanonicalSchema.Proofs.OrderChange

/-!
The three-way comparison of fields and their sort key are one order, which is total up to fields
with the same key. A list of fields, whatever is repeated in it, has one stable sort, and both sort
to it.
-/

namespace CanonicalSchema

/-! Stable sorts -/

section StableSort

variable {α : Type} {le : α → α → Bool} {given sorted sorted' : List α}

/-- Neither element comes strictly before the other. -/
def ties (le : α → α → Bool) (a b : α) : Bool := le a b && le b a

/-- The elements of a list in order, and those that tie as they were given. -/
structure IsStableSort (le : α → α → Bool) (given sorted : List α) : Prop where
  perm : sorted.Perm given
  ordered : sorted.Pairwise fun a b => le a b = true
  stable : ∀ a, sorted.filter (ties le a) = given.filter (ties le a)

theorem ties_of_ordered {a b : α} {as bs : List α} (hrefl : ∀ c, le c c = true)
    (ha : (a :: as).Pairwise fun c d => le c d = true)
    (hb : (b :: bs).Pairwise fun c d => le c d = true) (hp : (a :: as).Perm (b :: bs)) :
    ties le a b = true := by
  have hab : le a b = true := by
    rcases List.mem_cons.1 (hp.mem_iff.2 List.mem_cons_self : b ∈ a :: as) with rfl | hmem
    · exact hrefl b
    · exact List.rel_of_pairwise_cons ha hmem
  have hba : le b a = true := by
    rcases List.mem_cons.1 (hp.mem_iff.1 List.mem_cons_self : a ∈ b :: bs) with rfl | hmem
    · exact hrefl a
    · exact List.rel_of_pairwise_cons hb hmem
  unfold ties
  rw [hab, hba]
  rfl

theorem filter_tail_eq {p : α → Bool} {a : α} {as bs : List α}
    (h : (a :: as).filter p = (a :: bs).filter p) : as.filter p = bs.filter p := by
  by_cases ha : p a = true
  · rw [List.filter_cons_of_pos ha, List.filter_cons_of_pos ha] at h
    exact (List.cons.inj h).2
  · rwa [List.filter_cons_of_neg ha, List.filter_cons_of_neg ha] at h

theorem eq_of_ordered (hrefl : ∀ a, le a a = true) (hp : sorted.Perm sorted')
    (ho : sorted.Pairwise fun a b => le a b = true)
    (ho' : sorted'.Pairwise fun a b => le a b = true)
    (hs : ∀ a, sorted.filter (ties le a) = sorted'.filter (ties le a)) : sorted = sorted' := by
  induction sorted generalizing sorted' with
  | nil => exact hp.nil_eq
  | cons a as ih =>
    cases sorted' with
    | nil => exact hp.eq_nil
    | cons b bs =>
      have haa : ties le a a = true := by
        unfold ties
        rw [hrefl]
        rfl
      have hab : ties le a b = true := ties_of_ordered hrefl ho ho' hp
      -- Both heads lie in the class of the first, and there they are its first element.
      have hclass := hs a
      rw [List.filter_cons_of_pos haa, List.filter_cons_of_pos hab] at hclass
      obtain rfl := (List.cons.inj hclass).1
      rw [ih hp.cons_inv ho.of_cons ho'.of_cons fun c => filter_tail_eq (hs c)]

variable (htrans : ∀ a b c, le a b = true → le b c = true → le a c = true)
  (htotal : ∀ a b, (le a b || le b a) = true)

include htrans htotal

/-- A class of ties is in order as it was given, so it is still there in that order after a sort. -/
theorem filter_mergeSort (given : List α) (a : α) :
    (given.mergeSort le).filter (ties le a) = given.filter (ties le a) := by
  have hclass : (given.filter (ties le a)).Pairwise fun b c => le b c = true := by
    apply List.pairwise_of_forall_mem_list
    intro b hb c hc
    have hba : le a b = true ∧ le b a = true := by simpa [ties] using (List.mem_filter.1 hb).2
    have hca : le a c = true ∧ le c a = true := by simpa [ties] using (List.mem_filter.1 hc).2
    exact htrans b a c hba.2 hca.1
  have hsub : (given.filter (ties le a)).Sublist (given.mergeSort le) :=
    List.sublist_mergeSort htrans htotal hclass List.filter_sublist
  have hsub' := hsub.filter (ties le a)
  simp only [List.filter_filter, Bool.and_self] at hsub'
  have hlength := ((List.mergeSort_perm given le).filter (ties le a)).length_eq
  exact (hsub'.eq_of_length hlength.symm).symm

theorem isStableSort_mergeSort (given : List α) : IsStableSort le given (given.mergeSort le) where
  perm := List.mergeSort_perm given le
  ordered := List.pairwise_mergeSort htrans htotal given
  stable := filter_mergeSort htrans htotal given

theorem isStableSort_iff : IsStableSort le given sorted ↔ sorted = given.mergeSort le := by
  have hmerge := isStableSort_mergeSort htrans htotal given
  constructor
  · intro h
    have hrefl (a : α) : le a a = true := by simpa using htotal a a
    apply eq_of_ordered hrefl (h.perm.trans hmerge.perm.symm) h.ordered hmerge.ordered
    intro a
    rw [h.stable, hmerge.stable]
  · rintro rfl
    exact hmerge

end StableSort

namespace Field

variable {f g h : Field}

/-! The comparison, by which of two fields comes first -/

theorem compare_eq_gt_iff : f.compare g = .gt ↔ g.Precedes f := by
  rw [precedes_iff]
  unfold compare
  split
  · next hg => exact iff_of_true rfl hg
  · next hg =>
    refine iff_of_false ?_ hg
    split <;> exact Ordering.noConfusion

theorem compare_swap (f g : Field) : f.compare g = (g.compare f).swap := by
  cases hgf : g.compare f with
  | lt => exact compare_eq_gt_iff.2 (compare_eq_lt_iff.1 hgf)
  | gt => exact compare_eq_lt_iff.2 (compare_eq_gt_iff.1 hgf)
  | eq =>
    cases hfg : f.compare g with
    | eq => rfl
    | lt =>
      rw [compare_eq_gt_iff.2 (compare_eq_lt_iff.1 hfg)] at hgf
      contradiction
    | gt =>
      rw [compare_eq_lt_iff.2 (compare_eq_gt_iff.1 hfg)] at hgf
      contradiction

theorem compare_eq_eq_iff : f.compare g = .eq ↔
    f.isPrimaryKey = g.isPrimaryKey ∧ f.isConnected = g.isConnected ∧ f.name = g.name := by
  have hkeys : f.sortKey = g.sortKey ↔
      f.isPrimaryKey = g.isPrimaryKey ∧ f.isConnected = g.isConnected ∧ f.name = g.name := by
    simp [sortKey]
  rw [← hkeys]
  unfold compare
  constructor
  · intro h
    split at h
    · contradiction
    · next hgf =>
      split at h
      · contradiction
      · next hfg => exact SortKey.eq_of_not_before (by simpa using hfg) (by simpa using hgf)
  · intro h
    rw [h, SortKey.before_irrefl]
    rfl

/-! Two ways to say that a field does not come after another -/

def leByKey (f g : Field) : Bool := !g.sortKey.before f.sortKey

def leByComparison (f g : Field) : Bool := f.compare g != .gt

theorem leByComparison_iff : leByComparison f g = true ↔ f.compare g ≠ .gt := by
  simp [leByComparison]

theorem leByComparison_eq : leByComparison = leByKey := by
  funext f g
  unfold leByComparison leByKey
  rw [Bool.eq_iff_iff, bne_iff_ne, ne_eq, compare_eq_gt_iff, precedes_iff, Bool.not_eq_true,
    Bool.not_eq_true']

theorem leByKey_trans (f g h : Field) (hfg : leByKey f g = true) (hgh : leByKey g h = true) :
    leByKey f h = true := by
  unfold leByKey at *
  rw [Bool.not_eq_true'] at *
  exact SortKey.not_before_trans hfg hgh

theorem leByKey_total (f g : Field) : (leByKey f g || leByKey g f) = true := by
  unfold leByKey
  rw [Bool.or_eq_true, Bool.not_eq_true', Bool.not_eq_true']
  exact SortKey.not_before_total g.sortKey f.sortKey

theorem sortByComparison_eq (fs : List Field) : sortByComparison fs = sort fs :=
  congrArg (fun le => fs.mergeSort le) leByComparison_eq

theorem isStableSort_iff_sort {fs sorted : List Field} :
    IsStableSort leByKey fs sorted ↔ sorted = sort fs :=
  isStableSort_iff leByKey_trans leByKey_total

theorem sort_sort (fs : List Field) : sort (sort fs) = sort fs :=
  List.mergeSort_of_pairwise (isStableSort_iff_sort.2 rfl).ordered

/-- The comparison answers as the order of fields has it, by the primary key, the connection and the
name; exchanging two fields turns its answer round, and it calls two fields equal only if they agree
in all three. Of the fields of any list, repeated ones among them, a stable sort by the comparison
is one by the key, namely the canonical arrangement, which is left as it is by sorting again. -/
theorem comparison_agrees_with_key (f g h : Field) (fs sorted : List Field) :
    ((f.compare g = .lt ↔ f.Precedes g) ∧ (f.sortKey.before g.sortKey = true ↔ f.Precedes g)) ∧
    f.compare g = (g.compare f).swap ∧
    (f.compare g = .eq ↔
      f.isPrimaryKey = g.isPrimaryKey ∧ f.isConnected = g.isConnected ∧ f.name = g.name) ∧
    (f.compare g ≠ .gt → g.compare h ≠ .gt → f.compare h ≠ .gt) ∧
    (IsStableSort leByComparison fs sorted ↔ sorted = sort fs) ∧
    (IsStableSort leByKey fs sorted ↔ sorted = sort fs) ∧
    sortByComparison fs = sort fs ∧
    sortByComparison (sort fs) = sort fs ∧ sort (sort fs) = sort fs := by
  refine ⟨⟨compare_eq_lt_iff, precedes_iff.symm⟩, compare_swap f g, compare_eq_eq_iff, ?_, ?_,
    isStableSort_iff_sort, sortByComparison_eq fs, ?_, sort_sort fs⟩
  · simp only [← leByComparison_iff, leByComparison_eq]
    exact leByKey_trans f g h
  · rw [leByComparison_eq]
    exact isStableSort_iff_sort
  · rw [sortByComparison_eq, sort_sort]

open Difference in
/-- Two versions of one field tie, and so do two fields that are both called the key. -/
def tiedFields : List Field :=
  [{ plain "id" "id" with isPrimaryKey := true }, { plain "title" "title" with isRequired := true },
    plain "title" "title", connectedField "comments" "Comment",
    { plain "id" "id" with isPrimaryKey := true, type := .id }, plain "title" "title"]

theorem comparison_agrees_with_key_tied :
    tiedFields[1] ≠ tiedFields[2] ∧ tiedFields[1].compare tiedFields[2] = .eq ∧
      tiedFields[2].compare tiedFields[4] ≠ .gt ∧ tiedFields[1].compare tiedFields[4] ≠ .gt ∧
      IsStableSort leByComparison tiedFields (sort tiedFields) := by
  obtain ⟨-, -, heq, htrans, hstable, -⟩ := comparison_agrees_with_key tiedFields[1] tiedFields[2]
    tiedFields[4] tiedFields (sort tiedFields)
  have htie : tiedFields[1].compare tiedFields[2] = .eq := heq.2 (by decide)
  have hkey : tiedFields[2].compare tiedFields[4] ≠ .gt := by decide
  exact ⟨by decide, htie, hkey, htrans (by simp [htie]) hkey, hstable.2 rfl⟩

end Field

end CanonicalSchema
