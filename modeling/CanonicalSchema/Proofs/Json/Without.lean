import CanonicalSchema.Proofs.Json.LayoutReading

/-!
JSON values without some of their members, at any depth. What is left is looked up as before, and it
can be written and read again if all of it could.
-/

namespace CanonicalSchema.Json

mutual

/-- A value without the members at some places. The place of a member is given by the labels on the
way to it; inside arrays nothing is left out. -/
def without (out : List Text → Bool) : Json → Json
  | obj members => obj (withoutMembers out members)
  | v => v

def withoutMembers (out : List Text → Bool) : List (Text × Json) → List (Text × Json)
  | [] => []
  | (l, v) :: ms =>
    if out [l] then withoutMembers out ms
    else (l, without (fun place => out (l :: place)) v) :: withoutMembers out ms

end

variable {out : List Text → Bool} {ms : Entries Text Json} {v : Json}

@[simp] theorem without_null : without out null = null := rfl

@[simp] theorem without_bool (b : Bool) : without out (bool b) = bool b := rfl

@[simp] theorem without_int (n : Int) : without out (int n) = int n := rfl

@[simp] theorem without_str (s : Text) : without out (str s) = str s := rfl

@[simp] theorem without_arr (items : List Json) : without out (arr items) = arr items := rfl

theorem without_obj : without out (obj ms) = obj (withoutMembers out ms) := rfl

@[simp] theorem without_ofOption {α : Type} (write : α → Json) (o : Option α) :
    without out (ofOption write o) = ofOption (fun a => without out (write a)) o := by
  cases o with
  | none => exact without_null
  | some a => rfl

theorem get?_withoutMembers (out : List Text → Bool) (ms : Entries Text Json) (l : Text) :
    Entries.get? (withoutMembers out ms) l =
      if out [l] then none else (ms.get? l).map (without fun place => out (l :: place)) := by
  induction ms with
  | nil => simp [withoutMembers, Entries.get?]
  | cons m ms ih =>
    obtain ⟨k, v⟩ := m
    rw [withoutMembers, Entries.get?_cons]
    by_cases hl : l = k
    · subst hl
      by_cases ho : out [l] = true
      · simp [ho, ih]
      · simp [ho, Entries.get?_cons]
    · have hl : (l == k) = false := beq_eq_false_iff_ne.2 hl
      by_cases ho : out [k] = true
      · rw [if_pos ho, ih, hl, if_neg Bool.false_ne_true]
      · rw [if_neg ho, Entries.get?_cons, ih, hl, if_neg Bool.false_ne_true,
          if_neg Bool.false_ne_true]

theorem keys_withoutMembers (out : List Text → Bool) (ms : Entries Text Json) :
    Entries.keys (withoutMembers out ms) = ms.keys.filter fun l => !out [l] := by
  induction ms with
  | nil => rfl
  | cons m ms ih =>
    obtain ⟨k, v⟩ := m
    rw [withoutMembers, Entries.keys_cons]
    by_cases ho : out [k] = true
    · simp [ho, ih]
    · simp [ho, ih]

theorem keys_withoutMembers_subset (out : List Text → Bool) (ms : Entries Text Json) :
    Entries.keys (withoutMembers out ms) ⊆ ms.keys := by
  rw [keys_withoutMembers]
  exact List.filter_subset_self _

theorem exists_of_mem_withoutMembers {m : Text × Json} (h : m ∈ withoutMembers out ms) :
    ∃ v, (m.1, v) ∈ ms ∧ m.2 = without (fun place => out (m.1 :: place)) v := by
  induction ms with
  | nil => simp [withoutMembers] at h
  | cons m' ms ih =>
    obtain ⟨k, w⟩ := m'
    rw [withoutMembers] at h
    split at h
    · obtain ⟨v, hv, hm⟩ := ih h
      exact ⟨v, List.mem_cons_of_mem _ hv, hm⟩
    · rcases List.mem_cons.1 h with rfl | h
      · exact ⟨w, List.mem_cons_self, rfl⟩
      · obtain ⟨v, hv, hm⟩ := ih h
        exact ⟨v, List.mem_cons_of_mem _ hv, hm⟩

theorem mem_withoutMembers {m : Text × Json} (h : m ∈ ms) (ho : ¬ out [m.1] = true) :
    (m.1, m.2.without fun place => out (m.1 :: place)) ∈ withoutMembers out ms := by
  induction ms with
  | nil => cases h
  | cons m' ms ih =>
    obtain ⟨k, w⟩ := m'
    rw [withoutMembers]
    rcases List.mem_cons.1 h with rfl | h
    · rw [if_neg ho]
      exact List.mem_cons_self
    · split
      · exact ih h
      · exact List.mem_cons_of_mem _ (ih h)

/-- What holds of all nodes also holds of those that are left, if objects keep it with fewer
members. -/
theorem everywhere_without {p : Json → Prop} (h : v.Everywhere p)
    (hobj : ∀ out ms, p (obj ms) → p (obj (withoutMembers out ms))) (out : List Text → Bool) :
    (v.without out).Everywhere p := by
  induction h generalizing out with
  | @node j here below ih =>
    cases j with
    | obj members =>
      rw [without_obj, everywhere_obj_iff]
      refine ⟨hobj out members here, fun m hm => ?_⟩
      obtain ⟨v, hv, hm⟩ := exists_of_mem_withoutMembers hm
      rw [hm]
      exact ih v (List.mem_map_of_mem hv) _
    | _ => exact .node here below

theorem IsSpelt.without (h : (obj ms).IsSpelt) (out : List Text → Bool) :
    (obj (withoutMembers out ms)).IsSpelt := by
  refine ⟨id, fun t ht => h.texts t (keys_withoutMembers_subset out ms ht), ?_⟩
  change (Entries.keys (withoutMembers out ms)).Nodup
  rw [keys_withoutMembers]
  exact List.Nodup.filter _ h.labels

theorem spelt_without (h : v.Everywhere IsSpelt) (out : List Text → Bool) :
    (v.without out).Everywhere IsSpelt :=
  everywhere_without h (fun out _ hspelt => hspelt.without out) out

theorem readable_without (h : v.Everywhere IsReadable) (out : List Text → Bool) :
    (v.without out).Everywhere IsReadable :=
  everywhere_without h (fun out _ hread => ⟨hread.toIsSpelt.without out, nofun⟩) out

theorem nestsWithin_without {levels : Nat} (h : v.NestsWithin levels) (out : List Text → Bool) :
    (v.without out).NestsWithin levels := by
  induction h generalizing out with
  | @leaf levels j hl =>
    cases j with
    | arr items => exact absurd trivial hl
    | obj members => exact absurd trivial hl
    | _ => exact .leaf id
  | @container levels j below ih =>
    cases j with
    | obj members =>
      rw [without_obj]
      refine .container fun w hw => ?_
      obtain ⟨m, hm, rfl⟩ := List.mem_map.1 hw
      obtain ⟨v, hv, hm⟩ := exists_of_mem_withoutMembers hm
      rw [hm]
      exact ih v (List.mem_map_of_mem hv) _
    | _ => exact .container below

end CanonicalSchema.Json
