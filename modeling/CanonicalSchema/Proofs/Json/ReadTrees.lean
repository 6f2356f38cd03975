import CanonicalSchema.Json.Document
import CanonicalSchema.Proofs.Acceptance
import CanonicalSchema.Proofs.Entries
import CanonicalSchema.Proofs.Json.Numeral
import CanonicalSchema.Proofs.Json.Tree

/-!
What is known of a value that is read, node by node. A property that every scalar has, and an array
or object if its parts have it with one level less, is kept on the stack by each step of the reader,
so the value has it that is read in the end.
-/

namespace CanonicalSchema.Json

/-- Members as an object has them: no label twice. -/
structure MembersHold (q : Json → Prop) (members : Entries Text Json) : Prop where
  labels : members.keys.Nodup
  values : ∀ m ∈ members, q m.2

/-- The property is that of a value with so many levels of the stack left for it. -/
structure IsInherited (p : Nat → Json → Prop) : Prop where
  scalar {cs rest : List Char} {v : Json} (h : scanValue cs = .ok (.scalar v, rest))
    (levels : Nat) : p levels v
  array {levels : Nat} {items : List Json} (h : ∀ v ∈ items, p levels v) :
    p (levels + 1) (arr items)
  object {levels : Nat} {members : Entries Text Json} (h : MembersHold (p levels) members) :
    p (levels + 1) (obj members)

def Frame.Holds (q : Json → Prop) : Frame → Prop
  | array items => ∀ v ∈ items, q v
  | object members _ => MembersHold q members

/-- Each frame takes up a level of the stack, and the rest is left. -/
inductive Stacked (p : Nat → Json → Prop) (limit : Nat) : Nat → List Frame → Prop
  | nil : Stacked p limit limit []
  | cons {levels : Nat} {frame : Frame} {outer : List Frame} (hf : frame.Holds (p levels))
      (ho : Stacked p limit (levels + 1) outer) : Stacked p limit levels (frame :: outer)

inductive Expecting.Holds (p : Nat → Json → Prop) : Nat → Expecting → Prop
  | value {levels : Nat} : Holds p levels .value
  | elementOrEnd {levels : Nat} : Holds p (levels + 1) .elementOrEnd
  | memberOrEnd {levels : Nat} : Holds p (levels + 1) .memberOrEnd
  | member {levels : Nat} {members : Entries Text Json} (h : MembersHold (p levels) members) :
      Holds p (levels + 1) (.member members)
  | colon {levels : Nat} {members : Entries Text Json} {key : Text}
      (h : MembersHold (p levels) members) : Holds p (levels + 1) (.colon members key)
  | endOf {levels : Nat} {v : Json} (h : p levels v) : Holds p levels (.endOf v)

inductive Move.Holds (p : Nat → Json → Prop) (limit : Nat) : Move → Prop
  | finished {v : Json} (h : p limit v) : Holds p limit (.finished v)
  | go {levels : Nat} {next : Expecting} {frames : List Frame} {rest : List Char}
      (hn : next.Holds p levels) (hf : Stacked p limit levels frames) :
      Holds p limit (.go next frames rest)

variable {p : Nat → Json → Prop} {q : Json → Prop} {levels limit : Nat} {depth : Depth}
  {expecting : Expecting} {frames : List Frame} {cs text : List Char} {v : Json}

/-! Scalars -/

theorem shortInteger_of_scanNumber {r : Json × List Char} (h : scanNumber cs = .ok r) :
    ¬ r.1.IsContainer ∧ r.1.HasShortInteger := by
  unfold scanNumber at h
  simp only at h
  split at h
  · cases h
  · split at h
    · split at h
      · cases h
      · next hshort =>
        cases h
        refine ⟨id, fun n hn => ?_⟩
        obtain ⟨-, hdigits, -⟩ := scanWhole_spec (scanMinus cs).2
        have hread := isShortInteger_read hdigits (Nat.le_of_not_lt hshort)
        cases hn
        split
        · rwa [IsShortInteger, Int.natAbs_neg]
        · exact hread
    · cases h
      refine ⟨id, fun n hn => ?_⟩
      cases hn

/-- A scalar that is read is no container, and an integer among them is short. -/
theorem shortInteger_of_scanValue {rest : List Char} (h : scanValue cs = .ok (.scalar v, rest)) :
    ¬ v.IsContainer ∧ v.HasShortInteger := by
  unfold scanValue at h
  split at h
  · obtain ⟨_, -, h⟩ := Except.map_eq_ok_iff.1 h
    cases h
    exact ⟨id, nofun⟩
  · cases h
  · cases h
  · split at h
    · next hscan =>
      cases h
      obtain ⟨w, hw, h⟩ := List.exists_of_findSome?_eq_some hscan
      obtain ⟨rest, -, h⟩ := Option.map_eq_some_iff.1 h
      cases h
      simp only [words, List.mem_cons, List.not_mem_nil, or_false] at hw
      rcases hw with rfl | rfl | rfl | rfl | rfl | rfl <;> exact ⟨id, nofun⟩
    · obtain ⟨_, hn, h⟩ := Except.map_eq_ok_iff.1 h
      cases h
      exact shortInteger_of_scanNumber hn

/-! Members and frames -/

theorem membersHold_nil : MembersHold q [] := ⟨by simp [Entries.keys], by simp⟩

theorem MembersHold.put {members : Entries Text Json} (h : MembersHold q members) (key : Text)
    (hv : q v) : MembersHold q (members.put key v) := by
  refine ⟨(Entries.nodup_keys_put h.labels key v).1, fun m hm => ?_⟩
  rcases Entries.mem_of_mem_put hm with hm | hm
  · exact h.values m hm
  · rw [hm]
    exact hv

theorem Stacked.levels_add_length (h : Stacked p limit levels frames) :
    levels + frames.length = limit := by
  induction h with
  | nil => rfl
  | cons _ _ ih => rw [← ih, List.length_cons, Nat.add_right_comm, Nat.add_assoc]

/-! Steps -/

namespace IsInherited

theorem openValue {m : Move} (hp : IsInherited p) (hf : Stacked p depth.limit levels frames)
    (h : openValue depth frames cs = .ok m) : m.Holds p depth.limit := by
  unfold Json.openValue at h
  split at h
  · contradiction
  · next hv =>
    cases h
    exact .go (.endOf (hp.scalar hv levels)) hf
  · next c _ _ =>
    split at h
    · next hroom =>
      cases h
      have hlevels := hf.levels_add_length
      obtain ⟨n, rfl⟩ := Nat.exists_eq_succ_of_ne_zero (n := levels) (by omega)
      cases c
      · exact .go .elementOrEnd hf
      · exact .go .memberOrEnd hf
    · contradiction

theorem openMember {members : Entries Text Json} {m : Move} (hm : MembersHold (p levels) members)
    (hf : Stacked p limit (levels + 1) frames) (h : openMember members frames cs = .ok m) :
    m.Holds p limit := by
  unfold Json.openMember at h
  split at h
  · obtain ⟨_, -, h⟩ := Except.map_eq_ok_iff.1 h
    cases h
    exact .go (.colon hm) hf
  · contradiction

theorem step {m : Move} (hp : IsInherited p) (he : expecting.Holds p levels)
    (hf : Stacked p depth.limit levels frames) (h : step depth expecting frames cs = .ok m) :
    m.Holds p depth.limit := by
  cases he with
  | value => exact hp.openValue hf h
  | elementOrEnd =>
    simp only [Json.step] at h
    split at h
    · cases h
      exact .go (.endOf (hp.array (by simp))) hf
    · exact hp.openValue (.cons (by simp [Frame.Holds]) hf) h
  | memberOrEnd =>
    simp only [Json.step] at h
    split at h
    · cases h
      exact .go (.endOf (hp.object membersHold_nil)) hf
    · exact openMember membersHold_nil hf h
  | member hm => exact openMember hm hf h
  | colon hm =>
    simp only [Json.step] at h
    split at h
    · cases h
      exact .go .value (.cons hm hf)
    · contradiction
  | @endOf _ v hv =>
    cases hf with
    | nil =>
      simp only [Json.step] at h
      split at h
      · cases h
        exact .finished hv
      · contradiction
    | @cons _ frame outer hframe ho =>
      cases frame with
      | array items =>
        have hitems : ∀ w ∈ v :: items, p levels w := List.forall_mem_cons.2 ⟨hv, hframe⟩
        simp only [Json.step] at h
        split at h
        · cases h
          exact .go .value (.cons hitems ho)
        · cases h
          exact .go (.endOf (hp.array fun w hw => hitems w (List.mem_reverse.1 hw))) ho
        · contradiction
      | object members key =>
        have hmembers := MembersHold.put hframe key hv
        simp only [Json.step] at h
        split at h
        · cases h
          exact .go (.member hmembers) ho
        · cases h
          exact .go (.endOf (hp.object hmembers)) ho
        · contradiction

theorem run (hp : IsInherited p) (he : expecting.Holds p levels)
    (hf : Stacked p depth.limit levels frames) (h : run depth expecting frames text = .ok v) :
    p depth.limit v := by
  fun_induction Json.run depth expecting frames text generalizing levels with
  | case1 => contradiction
  | case2 expecting frames text w hs =>
    cases h
    cases hp.step he hf hs with
    | finished hw => exact hw
  | case3 expecting frames text next frames' rest hs ih =>
    cases hp.step he hf hs with
    | go hn hf' => exact ih hn hf' h

theorem read (hp : IsInherited p) (h : read depth text = .ok v) : p depth.limit v := by
  unfold Json.read at h
  split at h
  · contradiction
  · exact hp.run .value .nil (Except.mapError_eq_ok_iff.1 h)

end IsInherited

end CanonicalSchema.Json
