import CanonicalSchema.Json.Basic
import CanonicalSchema.Json.Problem

/-!
JSON values as trees, and what holds at every node of one.
-/

namespace CanonicalSchema.Json

def parts : Json → List Json
  | arr items => items
  | obj members => members.map Prod.snd
  | _ => []

inductive Everywhere (p : Json → Prop) : Json → Prop
  | node {j : Json} (here : p j) (below : ∀ v ∈ j.parts, Everywhere p v) : Everywhere p j

namespace Everywhere

variable {p q : Json → Prop} {j : Json}

theorem here (h : j.Everywhere p) : p j := by
  cases h
  assumption

theorem part (h : j.Everywhere p) {v : Json} (hv : v ∈ j.parts) : v.Everywhere p := by
  cases h with
  | node _ below => exact below v hv

theorem and (hp : j.Everywhere p) (hq : j.Everywhere q) : j.Everywhere fun v => p v ∧ q v := by
  induction hp with
  | node here _ ih => exact node ⟨here, hq.here⟩ fun v hv => ih v hv (hq.part hv)

theorem imp (hpq : ∀ v, p v → q v) (h : j.Everywhere p) : j.Everywhere q := by
  induction h with
  | node here _ ih => exact node (hpq _ here) ih

end Everywhere

theorem everywhere_leaf_iff {p : Json → Prop} {j : Json} (hl : j.parts = []) :
    j.Everywhere p ↔ p j :=
  ⟨fun h => h.here, fun h => .node h (by simp [hl])⟩

@[simp] theorem everywhere_null_iff {p : Json → Prop} : null.Everywhere p ↔ p null :=
  everywhere_leaf_iff rfl

@[simp] theorem everywhere_bool_iff {p : Json → Prop} {b : Bool} :
    (bool b).Everywhere p ↔ p (bool b) :=
  everywhere_leaf_iff rfl

@[simp] theorem everywhere_int_iff {p : Json → Prop} {n : Int} :
    (int n).Everywhere p ↔ p (int n) :=
  everywhere_leaf_iff rfl

@[simp] theorem everywhere_str_iff {p : Json → Prop} {s : Text} :
    (str s).Everywhere p ↔ p (str s) :=
  everywhere_leaf_iff rfl

@[simp] theorem everywhere_arr_iff {p : Json → Prop} {items : List Json} :
    (arr items).Everywhere p ↔ p (arr items) ∧ ∀ v ∈ items, v.Everywhere p :=
  ⟨fun h => ⟨h.here, fun _ hv => h.part hv⟩, fun h => .node h.1 h.2⟩

@[simp] theorem everywhere_obj_iff {p : Json → Prop} {members : List (Text × Json)} :
    (obj members).Everywhere p ↔ p (obj members) ∧ ∀ m ∈ members, m.2.Everywhere p := by
  constructor
  · exact fun h => ⟨h.here, fun m hm => h.part (List.mem_map_of_mem hm)⟩
  · rintro ⟨here, below⟩
    refine .node here fun v hv => ?_
    obtain ⟨m, hm, rfl⟩ := List.mem_map.1 hv
    exact below m hm

theorem everywhere_ofOption {p : Json → Prop} {α : Type} {write : α → Json} {o : Option α}
    (hn : null.Everywhere p) (h : ∀ a, o = some a → (write a).Everywhere p) :
    (ofOption write o).Everywhere p := by
  cases o with
  | none => exact hn
  | some a => exact h a rfl

/-! Levels -/

def IsContainer : Json → Prop
  | arr _ => True
  | obj _ => True
  | _ => False

/-- The value has so many levels of containers at most. -/
inductive NestsWithin : Nat → Json → Prop
  | leaf {levels : Nat} {j : Json} (h : ¬ j.IsContainer) : NestsWithin levels j
  | container {levels : Nat} {j : Json} (h : ∀ v ∈ j.parts, NestsWithin levels v) :
      NestsWithin (levels + 1) j

theorem NestsWithin.parts {levels : Nat} {j : Json} (h : NestsWithin levels j)
    (hj : j.IsContainer) : ∃ n, levels = n + 1 ∧ ∀ v ∈ j.parts, NestsWithin n v := by
  cases h with
  | leaf hl => exact absurd hj hl
  | container h => exact ⟨_, rfl, h⟩

@[simp] theorem nestsWithin_str {levels : Nat} {t : Text} : NestsWithin levels (str t) := .leaf id

@[simp] theorem nestsWithin_null {levels : Nat} : NestsWithin levels null := .leaf id

@[simp] theorem nestsWithin_arr_iff {levels : Nat} {items : List Json} :
    NestsWithin (levels + 1) (arr items) ↔ ∀ v ∈ items, NestsWithin levels v := by
  constructor
  · intro h
    obtain ⟨n, hn, hparts⟩ := h.parts trivial
    cases hn
    exact hparts
  · exact fun h => .container h

@[simp] theorem nestsWithin_obj_iff {levels : Nat} {members : List (Text × Json)} :
    NestsWithin (levels + 1) (obj members) ↔ ∀ m ∈ members, NestsWithin levels m.2 := by
  constructor
  · intro h m hm
    obtain ⟨n, hn, hparts⟩ := h.parts trivial
    cases hn
    exact hparts m.2 (List.mem_map_of_mem hm)
  · exact fun h => .container (List.forall_mem_map.2 h)

theorem NestsWithin.mono {levels levels' : Nat} {j : Json} (h : NestsWithin levels j)
    (hl : levels ≤ levels') : NestsWithin levels' j := by
  induction h generalizing levels' with
  | leaf h => exact .leaf h
  | container _ ih =>
    obtain ⟨n, rfl⟩ := Nat.exists_eq_add_of_le' (Nat.le_trans (Nat.le_add_left 1 _) hl)
    exact .container fun v hv => ih v hv (Nat.le_of_succ_le_succ hl)

theorem nestsWithin_texts (levels : Nat) (ts : List Text) :
    NestsWithin (levels + 1) (arr (ts.map str)) := by
  refine .container fun v hv => ?_
  obtain ⟨t, -, rfl⟩ := List.mem_map.1 hv
  exact .leaf id

theorem nestsWithin_ofOption {α : Type} {levels : Nat} {write : α → Json} (o : Option α)
    (h : ∀ a, NestsWithin levels (write a)) : NestsWithin levels (ofOption write o) := by
  cases o with
  | none => exact .leaf id
  | some a => exact h a

/-! Properties of a node -/

/-- The texts of a node: its own, or its labels. -/
def texts : Json → List Text
  | str s => [s]
  | obj members => members.map Prod.fst
  | _ => []

def IsFloat : Json → Prop
  | float _ => True
  | _ => False

def HasShortInteger (j : Json) : Prop := ∀ n, j = int n → IsShortInteger n

def HasDistinctLabels : Json → Prop
  | obj members => (members.map Prod.fst).Nodup
  | _ => True

/-- No floating-point number, and no object that repeats a label. -/
structure IsPlain (j : Json) : Prop where
  noFloat : ¬ j.IsFloat
  labels : j.HasDistinctLabels

theorem plain_null : null.Everywhere IsPlain := everywhere_null_iff.2 ⟨id, trivial⟩

theorem plain_bool (b : Bool) : (bool b).Everywhere IsPlain := everywhere_bool_iff.2 ⟨id, trivial⟩

theorem plain_int (n : Int) : (int n).Everywhere IsPlain := everywhere_int_iff.2 ⟨id, trivial⟩

theorem plain_str (s : Text) : (str s).Everywhere IsPlain := everywhere_str_iff.2 ⟨id, trivial⟩

theorem plain_ofOption {α : Type} {write : α → Json} (o : Option α)
    (h : ∀ a, (write a).Everywhere IsPlain) : (ofOption write o).Everywhere IsPlain :=
  everywhere_ofOption plain_null fun a _ => h a

theorem plain_arr {items : List Json} (h : ∀ v ∈ items, v.Everywhere IsPlain) :
    (arr items).Everywhere IsPlain :=
  everywhere_arr_iff.2 ⟨⟨id, trivial⟩, h⟩

theorem plain_obj {members : List (Text × Json)} (hn : (members.map Prod.fst).Nodup)
    (h : ∀ m ∈ members, m.2.Everywhere IsPlain) : (obj members).Everywhere IsPlain :=
  everywhere_obj_iff.2 ⟨⟨id, hn⟩, h⟩

end CanonicalSchema.Json
