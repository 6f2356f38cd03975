import CanonicalSchema.Proofs.Freezing
import CanonicalSchema.Proofs.Json.DistinctLabels
import CanonicalSchema.Proofs.Json.Tree

/-!
A frozen value holds what the value before it held: thawing both gives the same value. Only foreign
values are refused, so every value that is read from a JSON text can be frozen.
-/

namespace CanonicalSchema.Value

variable {narrow : Bool} {v w : Value}

def isFrozen : Value → Bool
  | null | bool _ | int _ | float _ | str _ | tuple _ | map _ => true
  | _ => false

mutual

/-- A value with mutable mappings and lists in the places of read-only mappings and tuples. -/
def thaw : Value → Value
  | list items => list (thawItems items)
  | tuple items => list (thawItems items)
  | map es => mutableMap (thawEntries es)
  | mutableMap es => mutableMap (thawEntries es)
  | v => v

def thawItems : List Value → List Value
  | [] => []
  | v :: vs => thaw v :: thawItems vs

def thawEntries : List (Value × Value) → List (Value × Value)
  | [] => []
  | e :: es => (e.1, thaw e.2) :: thawEntries es

end

/-- Every mapping that is reached has texts as its keys, and no two that are the same. -/
def HasTextKeys (v : Value) : Prop :=
  ∀ u ∈ v.reached, ∀ es, u.entries? = some es →
    ∃ ms : Entries Text Value, es = ms.map (fun m => (str m.1, m.2)) ∧ ms.keys.Nodup

theorem thawItems_eq (items : List Value) : thawItems items = items.map thaw := by
  induction items with
  | nil => rfl
  | cons v vs ih => rw [thawItems, ih, List.map_cons]

theorem thawEntries_eq (es : List (Value × Value)) :
    thawEntries es = es.map fun e => (e.1, e.2.thaw) := by
  induction es with
  | nil => rfl
  | cons e es ih => rw [thawEntries, ih, List.map_cons]

theorem thaw_of_elements {items : List Value} (h : v.elements? = some items) :
    v.thaw = list (items.map thaw) := by
  rw [← thawItems_eq]
  cases v <;> cases h <;> rfl

theorem thaw_of_entries {es : List (Value × Value)} (h : v.entries? = some es) :
    v.thaw = mutableMap (es.map fun e => (e.1, e.2.thaw)) := by
  rw [← thawEntries_eq]
  cases v <;> cases h <;> rfl

theorem HasTextKeys.element {items : List Value} (hk : v.HasTextKeys)
    (h : v.elements? = some items) {u : Value} (hu : u ∈ items) : u.HasTextKeys := by
  intro x hx
  refine hk x ?_
  rw [reached_of_elements h]
  exact List.mem_cons_of_mem _ (List.mem_flatMap.2 ⟨u, hu, hx⟩)

theorem HasTextKeys.entry {es : List (Value × Value)} (hk : v.HasTextKeys)
    (h : v.entries? = some es) {e : Value × Value} (he : e ∈ es) : e.2.HasTextKeys := by
  intro x hx
  refine hk x ?_
  rw [reached_of_entries h]
  have hmem : e.2 ∈ (writes es).values :=
    List.mem_map_of_mem (f := Prod.snd) (List.mem_map_of_mem he)
  exact List.mem_cons_of_mem _ (List.mem_flatMap.2 ⟨e.2, hmem, hx⟩)

/-! What freezing leaves -/

theorem isFrozen_of_frozenTo (h : FrozenTo narrow v w) : ∀ u ∈ w.reached, u.isFrozen = true := by
  refine forall_reached_of_frozenTo (fun v hv => ?_) (fun x => ?_) (fun _ => rfl) (fun _ => rfl) h
  · cases v <;> first | rfl | contradiction
  · unfold narrowed
    cases narrow with
    | false => rfl
    | true => cases x.integer? <;> rfl

/-- With texts as keys nothing is written over, so what is frozen can be thawed again. -/
theorem thaw_of_frozenTo (hk : v.HasTextKeys) (h : FrozenTo false v w) : w.thaw = v.thaw := by
  induction v using induction generalizing w with
  | foreign v hv => exact nomatch (freeze_of_foreign false hv).symm.trans h
  | fixed v hv =>
    cases (freeze_of_fixed false hv).symm.trans h
    rfl
  | float x =>
    cases (freeze_float false x).symm.trans h
    rfl
  | sequence v items hv ih =>
    obtain ⟨ws, hws, rfl⟩ := (frozenTo_of_elements hv).1 h
    have hthaw : items.map thaw = ws.map thaw :=
      List.map_eq_map_of_forall₂ hws fun u hu w hw => (ih u hu (hk.element hv hu) hw).symm
    rw [thaw_of_elements hv, thaw_of_elements rfl, hthaw]
  | mapping v es hv ih =>
    obtain ⟨fs, hfs, rfl⟩ := (frozenTo_of_entries hv).1 h
    obtain ⟨ms, rfl, hn⟩ := hk v v.mem_reached_self _ hv
    rw [writes_text] at hfs
    have hkeys : Entries.ofList fs = fs :=
      Entries.ofList_of_apart (Entries.apart_of_nodup (hfs.keys_eq ▸ hn))
    have hthaw : ms.map (fun m => (str m.1, m.2.thaw)) = fs.map fun f => (str f.1, f.2.thaw) := by
      refine List.map_eq_map_of_forall₂ hfs fun m hm f hf => ?_
      have he : (str m.1, m.2) ∈ ms.map fun m => (str m.1, m.2) := List.mem_map_of_mem hm
      rw [hf.1, ih _ he (hk.entry hv he) hf.2]
    rw [thaw_of_entries hv, thaw_of_entries (entries?_frozenMap fs), hkeys, List.map_map,
      List.map_map]
    exact congrArg mutableMap hthaw.symm

/-! Decoded JSON -/

theorem ofItems_eq (items : List Json) : ofItems items = items.map ofJson := by
  induction items with
  | nil => rfl
  | cons v vs ih => rw [ofItems, ih, List.map_cons]

theorem ofMembers_eq (ms : List (Text × Json)) :
    ofMembers ms = (ms.map fun m => (m.1, ofJson m.2)).map fun m => (str m.1, m.2) := by
  induction ms with
  | nil => rfl
  | cons m ms ih =>
    obtain ⟨k, v⟩ := m
    rw [ofMembers, ih]
    rfl

theorem exists_of_mem_reached_ofJson {p : Json → Prop} {j : Json} (h : j.Everywhere p) {u : Value}
    (hu : u ∈ (ofJson j).reached) : ∃ i, u = ofJson i ∧ p i := by
  induction h generalizing u with
  | @node j here _ ih =>
    cases j with
    | arr items =>
      have he : (ofJson (.arr items)).elements? = some (items.map ofJson) :=
        congrArg some (ofItems_eq items)
      rw [reached_of_elements he] at hu
      rcases List.mem_cons.1 hu with rfl | hu
      · exact ⟨_, rfl, here⟩
      · obtain ⟨v, hv, hu⟩ := List.mem_flatMap.1 hu
        obtain ⟨i, hi, rfl⟩ := List.mem_map.1 hv
        exact ih i hi hu
    | obj ms =>
      have he : (ofJson (.obj ms)).entries? = some (ofMembers ms) := rfl
      rw [reached_of_entries he, ofMembers_eq, writes_text] at hu
      rcases List.mem_cons.1 hu with rfl | hu
      · exact ⟨_, rfl, here⟩
      · obtain ⟨v, hv, hu⟩ := List.mem_flatMap.1 hu
        obtain ⟨e, he, rfl⟩ := List.mem_map.1 hv
        obtain ⟨m, hm, rfl⟩ := List.mem_map.1 he
        exact ih m.2 (List.mem_map_of_mem hm) hu
    | _ => exact ⟨_, List.mem_singleton.1 hu, here⟩

theorem hasTextKeys_ofJson {j : Json} (h : j.Distinct) : (ofJson j).HasTextKeys := by
  intro u hu es hes
  obtain ⟨i, rfl, hi⟩ := exists_of_mem_reached_ofJson h hu
  cases i with
  | obj ms =>
    cases hes
    refine ⟨ms.map fun m => (m.1, ofJson m.2), ofMembers_eq ms, ?_⟩
    unfold Entries.keys
    rw [List.map_map]
    exact hi
  | _ => cases hes

theorem thaw_ofJson {j : Json} (h : j.Distinct) : (ofJson j).thaw = ofJson j := by
  induction h with
  | @node j here _ ih =>
    cases j with
    | arr items =>
      have hj : ofJson (.arr items) = list (items.map ofJson) := congrArg list (ofItems_eq items)
      rw [hj, thaw_of_elements rfl, List.map_map]
      exact congrArg list (List.map_congr_left ih)
    | obj ms =>
      have hj : ofJson (.obj ms) = mutableMap (ms.map fun m => (str m.1, ofJson m.2)) := by
        rw [ofJson, ofMembers_eq, List.map_map]
        rfl
      rw [hj, thaw_of_entries rfl, List.map_map]
      refine congrArg mutableMap (List.map_congr_left fun m hm => ?_)
      exact Prod.ext rfl (ih m.2 (List.mem_map_of_mem hm))
    | _ => rfl

/-! What is refused, and what is kept -/

theorem exists_freezeFault_iff :
    (∃ fault, v.freezeFault? = some fault) ↔ ∃ u ∈ v.reached, u.isForeign = true := by
  unfold freezeFault?
  rw [← Option.isSome_iff_exists, Option.isSome_map, List.find?_isSome]

/-- A value whose mappings have texts as keys is refused where a foreign value is reached, and then
with the first one; otherwise it is frozen, and thawing leads to the same as thawing the value
itself. All that is read from a JSON text is frozen. -/
theorem freeze_loses_nothing :
    (∀ v : Value, v.HasTextKeys →
      ((∃ fault, v.freeze false = .error fault) ↔ ∃ u ∈ v.reached, u.isForeign = true) ∧
      (∀ fault, v.freeze false = .error fault →
        ∃ u, v.reached.find? isForeign = some u ∧ fault = .unsupported u) ∧
      ∀ w, v.freeze false = .ok w → (∀ u ∈ w.reached, u.isFrozen = true) ∧ w.thaw = v.thaw) ∧
    ∀ depth text j, Json.read depth text = .ok j → ∃ w, (ofJson j).freeze false = .ok w ∧
      (∀ u ∈ w.reached, u.isFrozen = true) ∧ w.thaw = ofJson j := by
  constructor
  · intro v hk
    simp only [freeze_eq_error_iff]
    refine ⟨exists_freezeFault_iff, fun fault h => ?_, fun w h =>
      ⟨isFrozen_of_frozenTo h, thaw_of_frozenTo hk h⟩⟩
    obtain ⟨u, hu, rfl⟩ := Option.map_eq_some_iff.1 h
    exact ⟨u, hu, rfl⟩
  · intro depth text j hread
    have hd := Json.distinct_of_read hread
    cases hw : (ofJson j).freeze false with
    | error fault =>
      obtain ⟨u, hu, hforeign⟩ := exists_freezeFault_iff.1 ⟨fault, freeze_eq_error_iff.1 hw⟩
      obtain ⟨i, rfl, -⟩ := exists_of_mem_reached_ofJson hd hu
      cases i <;> contradiction
    | ok w =>
      refine ⟨w, rfl, isFrozen_of_frozenTo hw, ?_⟩
      rw [thaw_of_frozenTo (hasTextKeys_ofJson hd) hw, thaw_ofJson hd]

def nested : Value := mutableMap [
  (str "a", list [int 1, float ⟨0x4000000000000000⟩, map [(str "b", null)]]),
  (str "c", tuple [bool true, str "d"])]

def unfit : Value := mutableMap [
  (str "a", list [int 1, mutableMap [(str "b", set [int 1])]]), (str "c", bytes [0])]

theorem hasTextKeys_nested : nested.HasTextKeys ∧ unfit.HasTextKeys := by
  constructor <;> intro u hu es hes <;>
    simp only [nested, unfit, reached, reachedFromItems, reachedFromEntries, List.append_nil,
      List.cons_append, List.nil_append, List.mem_cons, List.not_mem_nil, or_false] at hu
  · rcases hu with rfl | rfl | rfl | rfl | rfl | rfl | rfl | rfl | rfl <;> cases hes
    · exact ⟨[("a", _), ("c", _)], rfl, by decide⟩
    · exact ⟨[("b", _)], rfl, by decide⟩
  · rcases hu with rfl | rfl | rfl | rfl | rfl | rfl <;> cases hes
    · exact ⟨[("a", _), ("c", _)], rfl, by decide⟩
    · exact ⟨[("b", _)], rfl, by decide⟩

theorem freeze_loses_nothing_nested :
    (∃ w, nested.freeze false = .ok w ∧ w.thaw = nested.thaw) ∧
      unfit.freeze false = .error (.unsupported (set [int 1])) ∧
      ∃ j w, Json.read .standard "[1, [null, 2.5]]".toList = .ok j ∧
        (ofJson j).freeze false = .ok w ∧
        w.thaw = ofJson j := by
  obtain ⟨hvalue, htext⟩ := freeze_loses_nothing
  obtain ⟨-, -, hkept⟩ := hvalue nested hasTextKeys_nested.1
  obtain ⟨hrefused, hfirst, -⟩ := hvalue unfit hasTextKeys_nested.2
  obtain ⟨fault, hfault⟩ := hrefused.2 ⟨bytes [0], by
    simp [unfit, reached, reachedFromItems, reachedFromEntries], rfl⟩
  obtain ⟨u, hu, rfl⟩ := hfirst fault hfault
  cases hu
  have hok : (Json.read .standard "[1, [null, 2.5]]".toList).isOk = true := by decide +kernel
  cases hj : Json.read .standard "[1, [null, 2.5]]".toList with
  | error failure =>
    rw [hj] at hok
    contradiction
  | ok j =>
    obtain ⟨w, hw, -, hthaw⟩ := htext _ _ j hj
    exact ⟨⟨_, rfl, (hkept _ rfl).2⟩, hfault, j, w, rfl, hw, hthaw⟩

end CanonicalSchema.Value
