import CanonicalSchema.Proofs.Except
import CanonicalSchema.Proofs.IntegralNumber
import CanonicalSchema.Proofs.RelatedEntries
import CanonicalSchema.Value.Freeze

/-!
What freezing makes of each kind of value. A value is fixed, a floating-point number, a sequence, a
mapping or foreign. Freezing fails exactly where a foreign value is reached, whether numbers are
narrowed or not, and the one it names is the first on the way through the value.
-/

namespace CanonicalSchema.Value

variable {narrow : Bool} {v w : Value}

/-! The kinds of values -/

/-- Values that never stand for a part of decoded JSON. -/
def isForeign : Value → Bool
  | null | bool _ | int _ | float _ | str _ | tuple _ | list _ | map _ | mutableMap _ => false
  | _ => true

/-- Values that freezing never touches. -/
def isFixed : Value → Bool
  | null | bool _ | int _ | str _ => true
  | _ => false

def elements? : Value → Option (List Value)
  | list items => some items
  | tuple items => some items
  | _ => none

/-- The entries of a mapping as they are written into a read-only one, one after the other. -/
def writes (es : List (Value × Value)) : Entries Text Value := es.map fun e => (e.1.text, e.2)

theorem sizeOf_entry_lt {es : List (Value × Value)} {e : Value × Value} (he : e ∈ es) :
    sizeOf e.2 < sizeOf es := by
  have hmem := List.sizeOf_lt_of_mem he
  obtain ⟨k, v⟩ := e
  simp only [Prod.mk.sizeOf_spec] at hmem ⊢
  omega

/-- Induction over the values inside a value, one case for each kind. -/
theorem induction {p : Value → Prop}
    (foreign : ∀ v, v.isForeign = true → p v) (fixed : ∀ v, v.isFixed = true → p v)
    (float : ∀ x, p (float x))
    (sequence : ∀ v items, v.elements? = some items → (∀ u ∈ items, p u) → p v)
    (mapping : ∀ v es, v.entries? = some es → (∀ e ∈ es, p e.2) → p v) :
    ∀ v, p v
  | null => fixed null rfl
  | bool b => fixed (bool b) rfl
  | int n => fixed (int n) rfl
  | str s => fixed (str s) rfl
  | .float x => float x
  | list items =>
    sequence (list items) items rfl fun u _ => induction foreign fixed float sequence mapping u
  | tuple items =>
    sequence (tuple items) items rfl fun u _ => induction foreign fixed float sequence mapping u
  | map es =>
    mapping (map es) es rfl fun e he =>
      have := sizeOf_entry_lt he
      induction foreign fixed float sequence mapping e.2
  | mutableMap es =>
    mapping (mutableMap es) es rfl fun e he =>
      have := sizeOf_entry_lt he
      induction foreign fixed float sequence mapping e.2
  | set items => foreign (set items) rfl
  | bytes bs => foreign (bytes bs) rfl
  | decimal d => foreign (decimal d) rfl
termination_by v => sizeOf v

mutual

/-- All values that are reached from a value, itself included, in the order of a walk that enters
every mapping and every sequence where it finds it. -/
def reached : Value → List Value
  | list items => list items :: reachedFromItems items
  | tuple items => tuple items :: reachedFromItems items
  | map es => map es :: reachedFromEntries es
  | mutableMap es => mutableMap es :: reachedFromEntries es
  | v => [v]

def reachedFromItems : List Value → List Value
  | [] => []
  | v :: vs => reached v ++ reachedFromItems vs

def reachedFromEntries : List (Value × Value) → List Value
  | [] => []
  | e :: es => reached e.2 ++ reachedFromEntries es

end

/-! What is reached from each kind -/

theorem reachedFromItems_eq (items : List Value) :
    reachedFromItems items = items.flatMap reached := by
  induction items with
  | nil => rfl
  | cons v vs ih => rw [reachedFromItems, ih, List.flatMap_cons]

theorem reachedFromEntries_eq (es : List (Value × Value)) :
    reachedFromEntries es = (writes es).values.flatMap reached := by
  induction es with
  | nil => rfl
  | cons e es ih =>
    rw [reachedFromEntries, ih]
    rfl

theorem reached_of_foreign (h : v.isForeign = true) : v.reached = [v] := by
  cases v <;> first | rfl | contradiction

theorem reached_of_fixed (h : v.isFixed = true) : v.reached = [v] := by
  cases v <;> first | rfl | contradiction

theorem reached_of_elements {items : List Value} (h : v.elements? = some items) :
    v.reached = v :: items.flatMap reached := by
  rw [← reachedFromItems_eq]
  cases v <;> cases h <;> rfl

theorem reached_of_entries {es : List (Value × Value)} (h : v.entries? = some es) :
    v.reached = v :: (writes es).values.flatMap reached := by
  rw [← reachedFromEntries_eq]
  cases v <;> cases h <;> rfl

theorem mem_reached_self (v : Value) : v ∈ v.reached := by
  cases v <;> exact List.mem_cons_self

/-! What each kind is frozen to -/

/-- The integer that a number is narrowed to, or the number as it is. -/
def narrowed (narrow : Bool) (x : Binary64) : Value :=
  if narrow then (x.integer?.map int).getD (float x) else float x

/-- Only numbers that are integers are cut off, so narrowing never fails. -/
theorem narrowFloat_eq (narrow : Bool) (x : Binary64) :
    narrowFloat narrow x = .ok (narrowed narrow x) := by
  unfold narrowFloat narrowed
  cases narrow with
  | false => rfl
  | true =>
    rw [Bool.true_and, if_pos rfl]
    split
    · next h =>
      obtain ⟨n, hn⟩ := Binary64.isInteger_iff.1 h
      rw [Binary64.truncate_of_integer? hn, hn]
      rfl
    · next h =>
      have hnone : x.integer? = none := by
        rw [Option.eq_none_iff_forall_ne_some]
        exact fun n hn => h (Binary64.isInteger_iff.2 ⟨n, hn⟩)
      rw [hnone]
      rfl

theorem freeze_of_foreign (narrow : Bool) (h : v.isForeign = true) :
    v.freeze narrow = .error (.unsupported v) := by
  cases v <;> first | rfl | contradiction

theorem freeze_of_fixed (narrow : Bool) (h : v.isFixed = true) : v.freeze narrow = .ok v := by
  cases v <;> first | rfl | contradiction

theorem freeze_float (narrow : Bool) (x : Binary64) :
    (float x).freeze narrow = .ok (narrowed narrow x) := narrowFloat_eq narrow x

theorem freezeItems_eq (narrow : Bool) (items : List Value) :
    freezeItems narrow items = items.mapM (freeze narrow) := by
  induction items with
  | nil => rfl
  | cons v vs ih =>
    rw [freezeItems, ih, List.mapM_cons]

def freezeEntry (narrow : Bool) (e : Text × Value) : Except FreezeFault (Text × Value) :=
  (e.2.freeze narrow).map fun w => (e.1, w)

theorem freezeEntries_eq (narrow : Bool) (es : List (Value × Value)) :
    freezeEntries narrow es = (writes es).mapM (freezeEntry narrow) := by
  induction es with
  | nil => rfl
  | cons e es ih =>
    obtain ⟨k, v⟩ := e
    rw [freezeEntries, ih]
    unfold writes
    rw [List.map_cons, List.mapM_cons, freezeEntry]
    cases v.freeze narrow <;> rfl

theorem freeze_of_elements {items : List Value} (narrow : Bool) (h : v.elements? = some items) :
    v.freeze narrow = (items.mapM (freeze narrow)).map tuple := by
  rw [← freezeItems_eq]
  cases v <;> cases h <;> rfl

theorem freeze_of_entries {es : List (Value × Value)} (narrow : Bool)
    (h : v.entries? = some es) :
    v.freeze narrow = ((writes es).mapM (freezeEntry narrow)).map frozenMap := by
  rw [← freezeEntries_eq]
  cases v <;> cases h <;> rfl

def FrozenTo (narrow : Bool) (v w : Value) : Prop := v.freeze narrow = .ok w

theorem frozenTo_of_elements {items : List Value} (h : v.elements? = some items) :
    FrozenTo narrow v w ↔ ∃ ws, List.Forall₂ (FrozenTo narrow) items ws ∧ tuple ws = w := by
  unfold FrozenTo
  rw [freeze_of_elements narrow h, Except.map_eq_ok_iff]
  simp only [Except.mapM_eq_ok_iff]

theorem frozenTo_of_entries {es : List (Value × Value)} (h : v.entries? = some es) :
    FrozenTo narrow v w ↔
      ∃ fs, Entries.Related (FrozenTo narrow) (writes es) fs ∧ frozenMap fs = w := by
  have hentry (e f : Text × Value) :
      freezeEntry narrow e = .ok f ↔ e.1 = f.1 ∧ FrozenTo narrow e.2 f.2 := by
    unfold freezeEntry
    rw [Except.map_eq_ok_iff]
    constructor
    · rintro ⟨w, hw, rfl⟩
      exact ⟨rfl, hw⟩
    · rintro ⟨hk, hw⟩
      exact ⟨f.2, hw, Prod.ext hk rfl⟩
  unfold FrozenTo
  rw [freeze_of_entries narrow h, Except.map_eq_ok_iff]
  simp only [Except.mapM_eq_ok_iff, hentry]
  rfl

/-! Read-only mappings -/

theorem entries?_frozenMap (fs : Entries Text Value) :
    (frozenMap fs).entries? = some ((Entries.ofList fs).map fun f => (str f.1, f.2)) := rfl

@[simp] theorem writes_text (fs : Entries Text Value) :
    writes (fs.map fun f => (str f.1, f.2)) = fs := by
  unfold writes
  rw [List.map_map]
  exact List.map_id fs

theorem frozenMap_ofList (fs : Entries Text Value) :
    frozenMap (Entries.ofList fs) = frozenMap fs := by
  unfold frozenMap
  rw [Entries.ofList_of_apart (Entries.apart_ofList fs)]

theorem reached_frozenMap (fs : Entries Text Value) :
    (frozenMap fs).reached = frozenMap fs :: (Entries.ofList fs).values.flatMap reached := by
  rw [reached_of_entries (entries?_frozenMap fs), writes_text]

theorem forall_reached_of_frozenTo {p : Value → Prop} (fixed : ∀ v, v.isFixed = true → p v)
    (float : ∀ x, p (narrowed narrow x)) (tuple : ∀ ws, p (tuple ws)) (map : ∀ es, p (map es))
    (h : FrozenTo narrow v w) : ∀ u ∈ w.reached, p u := by
  induction v using induction generalizing w with
  | foreign v hv => exact nomatch (freeze_of_foreign narrow hv).symm.trans h
  | fixed v hv =>
    cases (freeze_of_fixed narrow hv).symm.trans h
    rw [reached_of_fixed hv, List.forall_mem_singleton]
    exact fixed v hv
  | float x =>
    cases (freeze_float narrow x).symm.trans h
    have hr : (narrowed narrow x).reached = [narrowed narrow x] := by
      unfold narrowed
      cases narrow with
      | false => rfl
      | true => cases x.integer? <;> rfl
    rw [hr, List.forall_mem_singleton]
    exact float x
  | sequence v items hv ih =>
    obtain ⟨ws, hws, rfl⟩ := (frozenTo_of_elements hv).1 h
    rw [reached_of_elements rfl, List.forall_mem_cons]
    refine ⟨tuple ws, fun u hu => ?_⟩
    obtain ⟨w, hw, hu⟩ := List.mem_flatMap.1 hu
    obtain ⟨v', hv', hw⟩ := List.exists_of_mem_of_forall₂ hws hw
    exact ih v' hv' hw u hu
  | mapping v es hv ih =>
    obtain ⟨fs, hfs, rfl⟩ := (frozenTo_of_entries hv).1 h
    have hall : ∀ f ∈ fs, ∀ u ∈ f.2.reached, p u := by
      intro f hf
      obtain ⟨_, he, hw⟩ := hfs.exists_of_mem hf
      obtain ⟨e, he', rfl⟩ := List.mem_map.1 he
      exact ih e he' hw
    rw [reached_frozenMap, List.forall_mem_cons]
    refine ⟨map _, fun u hu => ?_⟩
    obtain ⟨w, hw, hu⟩ := List.mem_flatMap.1 hu
    obtain ⟨f, hf, rfl⟩ := List.mem_map.1 hw
    exact Entries.forall_values_merge (p := fun w => ∀ u ∈ w.reached, p u)
      (List.forall_mem_nil _) hall f hf u hu

/-! When freezing fails -/

/-- The failure of freezing: the first foreign value on the way. -/
def freezeFault? (v : Value) : Option FreezeFault := (v.reached.find? isForeign).map .unsupported

theorem freezeFault?_of_parts {parts : List Value} (hv : v.isForeign = false)
    (h : v.reached = v :: parts.flatMap reached) :
    v.freezeFault? = parts.findSome? freezeFault? := by
  unfold freezeFault?
  rw [h, List.find?_cons_of_neg (by simp [hv]), List.find?_flatMap, List.map_findSome?]
  rfl

theorem freeze_eq_error_iff {fault : FreezeFault} :
    v.freeze narrow = .error fault ↔ v.freezeFault? = some fault := by
  induction v using induction generalizing fault with
  | foreign v h =>
    rw [freeze_of_foreign narrow h, freezeFault?, reached_of_foreign h]
    simp [h]
  | fixed v h =>
    have hf : v.isForeign = false := by cases v <;> first | rfl | contradiction
    rw [freeze_of_fixed narrow h, freezeFault?, reached_of_fixed h]
    simp [hf]
  | float x =>
    rw [freeze_float]
    simp [freezeFault?, reached, isForeign]
  | sequence v items h ih =>
    rw [freeze_of_elements narrow h, Except.map_eq_error_iff,
      freezeFault?_of_parts (by cases v <;> cases h <;> rfl) (reached_of_elements h)]
    exact Except.mapM_eq_error_iff fun u hu e => ih u hu
  | mapping v es h ih =>
    rw [freeze_of_entries narrow h, Except.map_eq_error_iff,
      freezeFault?_of_parts (by cases v <;> cases h <;> rfl) (reached_of_entries h)]
    have hentry : ∀ e ∈ writes es, ∀ fault,
        freezeEntry narrow e = .error fault ↔ e.2.freezeFault? = some fault := by
      intro e he fault
      obtain ⟨e', he', rfl⟩ := List.mem_map.1 he
      unfold freezeEntry
      rw [Except.map_eq_error_iff]
      exact ih e' he'
    rw [Except.mapM_eq_error_iff hentry]
    unfold Entries.values
    rw [List.findSome?_map]
    rfl

end CanonicalSchema.Value
