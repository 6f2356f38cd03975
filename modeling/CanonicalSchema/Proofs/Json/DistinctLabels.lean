import CanonicalSchema.Proofs.Json.ReadTrees

/-!
No object that is read repeats a label: a member whose label is there already is written over.
-/

namespace CanonicalSchema.Json

abbrev Distinct (v : Json) : Prop := v.Everywhere HasDistinctLabels

variable {depth : Depth} {v : Json}

theorem distinct_of_not_isContainer (h : ¬ v.IsContainer) : v.Distinct := by
  cases v with
  | arr _ | obj _ => exact absurd trivial h
  | _ => exact (everywhere_leaf_iff rfl).2 trivial

theorem isInherited_distinct : IsInherited fun _ v => v.Distinct where
  scalar h _ := distinct_of_not_isContainer (shortInteger_of_scanValue h).1
  array h := everywhere_arr_iff.2 ⟨trivial, h⟩
  object h := everywhere_obj_iff.2 ⟨h.labels, h.values⟩

theorem distinct_of_read {text : List Char} (h : read depth text = .ok v) : v.Distinct :=
  isInherited_distinct.read h

theorem distinct_of_ofBytes {bytes : List UInt8} (h : ofBytes depth bytes = .ok v) :
    v.Distinct := by
  unfold ofBytes at h
  split at h
  · contradiction
  · exact distinct_of_read (Except.mapError_eq_ok_iff.1 h)

end CanonicalSchema.Json
