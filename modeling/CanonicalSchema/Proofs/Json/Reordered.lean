import CanonicalSchema.Proofs.Entries
import CanonicalSchema.Proofs.Json.DistinctLabels
import Mathlib.Data.List.Forall2
import Mathlib.Data.Option.Basic
import Mathlib.Data.List.Perm.Basic

/-!
JSON values that differ only in the order of the members of objects, at any depth. Elements of
arrays stay where they are.
-/

namespace CanonicalSchema.Json

inductive Reordered : Json → Json → Prop
  | refl (v : Json) : Reordered v v
  | arr {vs ws : List Json} (length : vs.length = ws.length)
      (items : ∀ (i : Nat) v w, vs[i]? = some v → ws[i]? = some w → Reordered v w) :
      Reordered (arr vs) (arr ws)
  | obj {ms ns : Entries Text Json} (labels : ms.keys.Perm ns.keys)
      (members : ∀ l v w, ms.get? l = some v → ns.get? l = some w → Reordered v w) :
      Reordered (obj ms) (obj ns)

/-- Under each label the same value, up to reordering, or none. -/
def SameMembers (ms ns : Entries Text Json) : Prop :=
  ∀ l, Option.Rel Reordered (ms.get? l) (ns.get? l)

namespace Reordered

variable {v w : Json} {ms ns : Entries Text Json}

theorem symm (h : v.Reordered w) : w.Reordered v := by
  induction h with
  | refl v => exact refl v
  | arr length _ ih => exact arr length.symm fun i w v hw hv => ih i v w hv hw
  | obj labels _ ih => exact obj labels.symm fun l w v hw hv => ih l v w hv hw

theorem isBlank_eq (h : v.Reordered w) : v.isBlank = w.isBlank := by
  cases h with
  | refl => rfl
  | arr length =>
    unfold isBlank
    rw [Bool.eq_iff_iff, List.isEmpty_iff_length_eq_zero, List.isEmpty_iff_length_eq_zero, length]
  | obj labels =>
    have hl := labels.length_eq
    unfold Entries.keys at hl
    simp only [List.length_map] at hl
    unfold isBlank
    rw [Bool.eq_iff_iff, List.isEmpty_iff_length_eq_zero, List.isEmpty_iff_length_eq_zero, hl]

theorem distinct (h : v.Reordered w) (hv : v.Distinct) : w.Distinct := by
  induction h with
  | refl => exact hv
  | @arr vs ws length _ ih =>
    rw [Json.Distinct, everywhere_arr_iff] at hv ⊢
    refine ⟨trivial, fun w hw => ?_⟩
    obtain ⟨i, hi, rfl⟩ := List.getElem_of_mem hw
    have hi' : i < vs.length := length ▸ hi
    exact ih i vs[i] ws[i] (List.getElem?_eq_getElem hi') (List.getElem?_eq_getElem hi)
      (hv.2 _ (List.getElem_mem hi'))
  | @obj ms ns labels _ ih =>
    rw [Json.Distinct, everywhere_obj_iff] at hv ⊢
    have hn : ns.keys.Nodup := labels.nodup hv.1
    refine ⟨hn, fun n hm => ?_⟩
    have hl : n.1 ∈ ms.keys := labels.mem_iff.2 (List.mem_map_of_mem hm)
    obtain ⟨m, hm', hl⟩ := List.mem_map.1 hl
    exact ih m.1 m.2 n.2 (Entries.get?_of_mem hv.1 hm') (Entries.get?_of_mem hn (hl ▸ hm))
      (hv.2 m hm')

theorem sameMembers (h : (Json.obj ms).Reordered (Json.obj ns)) : SameMembers ms ns := by
  intro l
  cases h with
  | refl =>
    cases ms.get? l with
    | none => exact .none
    | some v => exact .some (refl v)
  | obj labels members =>
    have hl : ms.contains l = ns.contains l := by
      rw [Bool.eq_iff_iff, Entries.contains_iff, Entries.contains_iff, labels.mem_iff]
    unfold Entries.contains at hl
    cases hm : ms.get? l with
    | none =>
      rw [hm, Option.isSome_none, eq_comm, Option.isSome_eq_false_iff, Option.isNone_iff_eq_none]
        at hl
      rw [hl]
      exact .none
    | some v =>
      rw [hm, Option.isSome_some, eq_comm, Option.isSome_iff_exists] at hl
      obtain ⟨w, hw⟩ := hl
      rw [hw]
      exact .some (members l v w hm hw)

theorem members_perm (h : (Json.obj ms).Reordered (Json.obj ns)) (hd : ms.keys.Nodup) :
    ∃ ps : Entries Text Json, ms.Perm ps ∧
      List.Forall₂ (fun p n => p.1 = n.1 ∧ p.2.Reordered n.2) ps ns := by
  cases h with
  | refl => exact ⟨ms, List.Perm.refl ms, List.forall₂_same.2 fun m _ => ⟨rfl, refl m.2⟩⟩
  | obj labels members =>
    have hk : List.Forall₂ (fun l m => l = m.1) ms.keys ms :=
      List.forall₂_map_left_iff.2 (List.forall₂_same.2 fun _ _ => rfl)
    obtain ⟨ps, hps, hp⟩ := List.perm_comp_forall₂ labels.symm hk
    obtain ⟨hlength, hzip⟩ := List.forall₂_iff_zip.1 (List.forall₂_map_left_iff.1 hps).flip
    refine ⟨ps, hp.symm, List.forall₂_iff_zip.2 ⟨hlength, fun {p n} hpn => ?_⟩⟩
    have hl : n.1 = p.1 := hzip hpn
    obtain ⟨hpmem, hnmem⟩ := List.of_mem_zip hpn
    refine ⟨hl.symm, members p.1 p.2 n.2 ?_ ?_⟩
    · exact Entries.get?_of_mem hd (hp.mem_iff.1 hpmem)
    · exact Entries.get?_of_mem (labels.nodup hd) (hl ▸ hnmem)

theorem of_perm {ps : Entries Text Json} (hp : ms.Perm ps) (hd : ms.keys.Nodup)
    (h : List.Forall₂ (fun p n => p.1 = n.1 ∧ p.2.Reordered n.2) ps ns) :
    (Json.obj ms).Reordered (Json.obj ns) := by
  refine obj ?_ fun l v w hv hw => ?_
  · have hk : Entries.keys ps = Entries.keys ns :=
      List.forall₂_eq_eq_eq ▸ List.forall₂_map_right_iff.2 (List.forall₂_map_left_iff.2
        (h.imp fun _ _ hpn => hpn.1))
    exact hk ▸ Entries.keys_perm hp
  · rw [Entries.get?_eq_of_perm hp hd] at hv
    clear hp hd
    induction h with
    | nil => contradiction
    | @cons p n _ _ hpn _ ih =>
      rw [Entries.get?_cons] at hv hw
      rw [hpn.1] at hv
      split at hv
      · next hl =>
        rw [if_pos hl] at hw
        cases hv
        cases hw
        exact hpn.2
      · next hl =>
        rw [if_neg hl] at hw
        exact ih hv hw

end Reordered

theorem map_isBlank_eq {o o' : Option Json} (h : Option.Rel Reordered o o') :
    o.map isBlank = o'.map isBlank := by
  cases h with
  | none => rfl
  | some hvw => rw [Option.map_some, Option.map_some, hvw.isBlank_eq]

namespace SameMembers

variable {ms ns : Entries Text Json}

theorem of_some (h : SameMembers ms ns) {l : Text} {v : Json} (hv : ms.get? l = some v) :
    ∃ w, ns.get? l = some w ∧ v.Reordered w := by
  have hl := h l
  rw [hv] at hl
  generalize ns.get? l = o at hl ⊢
  cases hl with
  | some hvw => exact ⟨_, rfl, hvw⟩

theorem of_none (h : SameMembers ms ns) {l : Text} (hv : ms.get? l = none) :
    ns.get? l = none := by
  have hl := h l
  rw [hv] at hl
  generalize ns.get? l = o at hl ⊢
  cases hl
  rfl

theorem contains_eq (h : SameMembers ms ns) (l : Text) : ms.contains l = ns.contains l := by
  unfold Entries.contains
  cases hv : ms.get? l with
  | none => rw [h.of_none hv]
  | some v =>
    obtain ⟨w, hw, -⟩ := h.of_some hv
    rw [hw]
    rfl

theorem mem_keys_iff (h : SameMembers ms ns) {l : Text} : l ∈ ms.keys ↔ l ∈ ns.keys := by
  rw [← Entries.contains_iff, ← Entries.contains_iff, h.contains_eq]

theorem put (h : SameMembers ms ns) (l : Text) {v w : Json} (hvw : v.Reordered w) :
    SameMembers (ms.put l v) (ns.put l w) := by
  intro k
  by_cases hk : k = l
  · subst hk
    rw [Entries.get?_put_self, Entries.get?_put_self]
    exact .some hvw
  · rw [Entries.get?_put_of_ne _ _ hk, Entries.get?_put_of_ne _ _ hk]
    exact h k

end SameMembers

end CanonicalSchema.Json
