import CanonicalSchema.Proofs.LastWrites
import Mathlib.Data.List.Forall2

/-!
Entries with the same keys in the same places, and with values that stand in a relation. The
relation outlasts writing, and what is looked up on both sides stands in it as well.
-/

namespace List

variable {α β γ : Type} {r : α → β → Prop} {xs : List α} {ys : List β}

theorem exists_of_mem_of_forall₂ (h : List.Forall₂ r xs ys) {y : β} (hy : y ∈ ys) :
    ∃ x ∈ xs, r x y := by
  induction h with
  | nil => contradiction
  | cons hxy _ ih =>
    rcases List.mem_cons.1 hy with rfl | hy
    · exact ⟨_, List.mem_cons_self, hxy⟩
    · obtain ⟨x, hx, hr⟩ := ih hy
      exact ⟨x, List.mem_cons_of_mem _ hx, hr⟩

theorem map_eq_map_of_forall₂ {f : α → γ} {g : β → γ} (h : List.Forall₂ r xs ys)
    (hfg : ∀ x ∈ xs, ∀ y, r x y → f x = g y) : xs.map f = ys.map g := by
  induction h with
  | nil => rfl
  | cons hxy _ ih =>
    rw [List.forall_mem_cons] at hfg
    rw [List.map_cons, List.map_cons, hfg.1 _ hxy, ih hfg.2]

theorem rel_getElem?_of_forall₂ (h : List.Forall₂ r xs ys) (i : Nat) :
    Option.Rel r xs[i]? ys[i]? := by
  induction h generalizing i with
  | nil => exact .none
  | cons hxy _ ih =>
    cases i with
    | zero => exact .some hxy
    | succ i => exact ih i

theorem exists_forall₂ {s : β → γ → Prop} {t : α → γ → Prop} (h : List.Forall₂ r xs ys)
    (hchoice : ∀ x ∈ xs, ∀ y, r x y → ∃ z, s y z ∧ t x z) :
    ∃ zs, List.Forall₂ s ys zs ∧ List.Forall₂ t xs zs := by
  induction h with
  | nil => exact ⟨[], .nil, .nil⟩
  | cons hxy _ ih =>
    rw [List.forall_mem_cons] at hchoice
    obtain ⟨z, hs, ht⟩ := hchoice.1 _ hxy
    obtain ⟨zs, hss, hts⟩ := ih hchoice.2
    exact ⟨z :: zs, .cons hs hss, .cons ht hts⟩

end List

namespace CanonicalSchema.Entries

variable {κ μ ν : Type} {r : μ → ν → Prop}

def Related (r : μ → ν → Prop) (es : Entries κ μ) (fs : Entries κ ν) : Prop :=
  List.Forall₂ (fun e f => e.1 = f.1 ∧ r e.2 f.2) es fs

namespace Related

variable {es : Entries κ μ} {fs : Entries κ ν}

theorem keys_eq (h : Related r es fs) : es.keys = fs.keys := by
  induction h with
  | nil => rfl
  | cons hef _ ih => rw [keys_cons, keys_cons, hef.1, ih]

theorem exists_of_mem (h : Related r es fs) {f : κ × ν} (hf : f ∈ fs) : ∃ e ∈ es, r e.2 f.2 := by
  obtain ⟨e, he, -, hr⟩ := List.exists_of_mem_of_forall₂ h hf
  exact ⟨e, he, hr⟩

variable [BEq κ]

theorem get? (h : Related r es fs) (k : κ) : Option.Rel r (es.get? k) (fs.get? k) := by
  induction h with
  | nil => exact .none
  | @cons e f es fs hef _ ih =>
    obtain ⟨j, u⟩ := e
    obtain ⟨_, v⟩ := f
    obtain ⟨rfl, hr⟩ := hef
    rw [get?_cons, get?_cons]
    split
    · exact .some hr
    · exact ih

theorem lastWritten (h : Related r es fs) (k : κ) :
    Option.Rel r (es.lastWritten k) (fs.lastWritten k) :=
  get? (List.rel_reverse h) k

theorem put (h : Related r es fs) {u : μ} {v : ν} (huv : r u v) (k : κ) :
    Related r (es.put k u) (fs.put k v) := by
  induction h with
  | nil => exact .cons ⟨rfl, huv⟩ .nil
  | @cons e f es fs hef hrest ih =>
    obtain ⟨j, u'⟩ := e
    obtain ⟨_, v'⟩ := f
    obtain ⟨rfl, hr⟩ := hef
    simp only [Entries.put]
    split
    · exact .cons ⟨rfl, huv⟩ hrest
    · exact .cons ⟨rfl, hr⟩ ih

theorem merge {es' : Entries κ μ} {fs' : Entries κ ν} (h : Related r es fs)
    (hmore : Related r es' fs') : Related r (es.merge es') (fs.merge fs') := by
  refine List.rel_foldl (fun es fs h e f hef => ?_) h hmore
  rw [hef.1]
  exact h.put hef.2 f.1

theorem ofList (h : Related r es fs) : Related r (ofList es) (ofList fs) := by
  unfold Entries.ofList
  exact merge .nil h

end Related

end CanonicalSchema.Entries
