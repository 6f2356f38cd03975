import CanonicalSchema.Checked.Record
import CanonicalSchema.Checked.Scalar
import CanonicalSchema.Proofs.Except
import CanonicalSchema.Proofs.Text

/-!
When a check accepts: exactly when each of its parts does. What the parts say about rejected values
plays no role here.
-/

namespace CanonicalSchema.Checked

variable {α β : Type}

@[simp] theorem accepted_inj {a a' : α} : accepted a = accepted a' ↔ a = a' :=
  ⟨fun h => by cases h; rfl, fun h => h ▸ rfl⟩

@[simp] theorem fail_ne_accepted (problem : Issue.Problem) (a : α) : fail problem ≠ accepted a := by
  intro h
  cases h

theorem seq_eq_accepted_iff {f : Checked (α → β)} {x : Checked α} {b : β} :
    f <*> x = accepted b ↔ ∃ g, f = accepted g ∧ ∃ a, x = accepted a ∧ g a = b := by
  change seq f x = accepted b ↔ _
  cases f <;> cases x <;> simp [seq]

theorem map_eq_accepted_iff {f : α → β} {x : Checked α} {b : β} :
    f <$> x = accepted b ↔ ∃ a, x = accepted a ∧ f a = b := by
  change seq (accepted f) x = accepted b ↔ _
  cases x <;> simp [seq]

theorem seqLeft_eq_accepted_iff {x : Checked α} {y : Checked β} {a : α} :
    x <* y = accepted a ↔ x = accepted a ∧ ∃ b, y = accepted b := by
  change seq (seq (accepted (Function.const β)) x) y = accepted a ↔ _
  cases x <;> cases y <;> simp [seq, Function.const]

@[simp] theorem under_eq_accepted_iff {step : Issue.Step} {x : Checked α} {a : α} :
    x.under step = accepted a ↔ x = accepted a := by
  cases x <;> simp [under]

theorem ensure_eq_accepted_iff {rule? : α → Option Rule} {x : Checked α} {a : α} :
    x.ensure rule? = accepted a ↔ x = accepted a ∧ rule? a = none := by
  cases x with
  | accepted a' =>
    unfold ensure
    simp only
    split
    · next h =>
      constructor
      · intro hf
        exact absurd hf (fail_ne_accepted _ _)
      · rintro ⟨ha, hn⟩
        cases ha
        rw [h] at hn
        contradiction
    · next h =>
      constructor
      · intro ha
        cases ha
        exact ⟨rfl, h⟩
      · exact fun ha => ha.1
  | rejected is => simp [ensure]

theorem all_eq_accepted_iff {xs : List (Checked α)} {as : List α} :
    all xs = accepted as ↔ xs = as.map accepted := by
  induction xs generalizing as with
  | nil => cases as <;> simp [all]
  | cons x xs ih =>
    change (· :: ·) <$> x <*> all xs = accepted as ↔ _
    rw [seq_eq_accepted_iff]
    simp only [map_eq_accepted_iff, ih]
    cases as with
    | nil => simp
    | cons a as =>
      rw [List.map_cons, List.cons.injEq]
      constructor
      · rintro ⟨_, ⟨b, hx, rfl⟩, bs, hxs, hb⟩
        obtain ⟨rfl, rfl⟩ := List.cons.inj hb
        exact ⟨hx, hxs⟩
      · rintro ⟨hx, hxs⟩
        exact ⟨_, ⟨a, hx, rfl⟩, as, hxs, rfl⟩

/-! Records -/

section Records

variable {members : Entries Text Json} {label title : String} {check : Json → Checked α} {a : α}

theorem required_eq_accepted_iff :
    required members label check = accepted a ↔
      ∃ j, members.get? label = some j ∧ check j = accepted a := by
  unfold required
  cases members.get? label with
  | none => simp
  | some j => simp

theorem defaulted_eq_accepted_iff {default : α} :
    defaulted members label default check = accepted a ↔
      (∃ j, members.get? label = some j ∧ check j = accepted a) ∨
        members.get? label = none ∧ default = a := by
  unfold defaulted
  cases members.get? label with
  | none => simp
  | some j => simp

theorem required_congr {others : Entries Text Json}
    (h : members.get? label = others.get? label) :
    required members label check = required others label check := by
  unfold required
  rw [h]

theorem defaulted_congr {others : Entries Text Json} {default : α}
    (h : members.get? label = others.get? label) :
    defaulted members label default check = defaulted others label default check := by
  unfold defaulted
  rw [h]

theorem noOthers_eq_accepted_iff {labels : List Text} {u : Unit} :
    noOthers labels = accepted u ↔ labels = [] := by
  cases labels <;> simp [noOthers]

theorem onlyKnown_eq_accepted_iff {known : List Text} {u : Unit} :
    onlyKnown known members = accepted u ↔ members.keys ⊆ known := by
  unfold onlyKnown
  rw [noOthers_eq_accepted_iff, List.filter_eq_nil_iff]
  simp [List.subset_def]

theorem record_eq_accepted_iff {check : Entries Text Json → Checked α} {j : Json} :
    record title check j = accepted a ↔
      ∃ ms, j = .obj ms ∧ (∀ l ∈ Entries.keys ms, l.string?.isSome) ∧ check ms = accepted a := by
  unfold record
  split
  · next ms =>
    simp only [Json.obj.injEq, exists_eq_left', Entries.keys, List.forall_mem_map]
    split
    · next h =>
      obtain ⟨m, hm, hn⟩ := List.any_eq_true.1 h
      simp only [fail_ne_accepted, false_iff]
      rintro ⟨hs, -⟩
      have := hs m hm
      simp_all
    · next h =>
      simp only [List.any_eq_true, not_exists, not_and] at h
      refine ⟨fun hc => ⟨fun m hm => ?_, hc⟩, fun hc => hc.2⟩
      exact Option.isNone_eq_false_iff.1 (eq_false_of_ne_true (h m hm))
  · next h =>
    simp only [fail_ne_accepted, false_iff]
    rintro ⟨ms, rfl, -⟩
    exact h ms rfl

end Records

/-! Scalars -/

theorem text_eq_accepted_iff {j : Json} {t : Text} : text j = accepted t ↔ j = .str t := by
  cases j <;> simp [text]

theorem characters_eq_accepted_iff {check : String → Checked α} {t : Text} {a : α} :
    characters check t = accepted a ↔ ∃ s, t.string? = some s ∧ check s = accepted a := by
  unfold characters
  cases t.string? <;> simp

theorem nonEmptyText_eq_accepted_iff {j : Json} {s : String} :
    nonEmptyText j = accepted s ↔ j = .str (.ofString s) ∧ s ≠ "" := by
  cases j with
  | str t =>
    simp only [nonEmptyText, characters_eq_accepted_iff, Text.string?_eq_some_iff, Json.str.injEq]
    constructor
    · rintro ⟨s', rfl, h⟩
      split at h
      · contradiction
      · next hs =>
        cases h
        exact ⟨rfl, by simpa using hs⟩
    · rintro ⟨rfl, hs⟩
      refine ⟨s, rfl, ?_⟩
      rw [if_neg (by simpa using hs)]
  | _ => simp [nonEmptyText]

theorem nullable_eq_some_iff {check : Json → Checked α} {j : Json} {a : α} :
    nullable check j = accepted (some a) ↔ j ≠ .null ∧ check j = accepted a := by
  cases j <;> simp [nullable, map_eq_accepted_iff]

theorem nullable_ofOption {check : Json → Checked α} {write : α → Json} {o : Option α}
    (h : ∀ a, o = some a → write a ≠ .null ∧ check (write a) = accepted a) :
    nullable check (Json.ofOption write o) = accepted o := by
  cases o with
  | none => rfl
  | some a => exact nullable_eq_some_iff.2 (h a rfl)

theorem pos_of_positive {j : Json} {n : Nat} (h : positive j = accepted n) : 0 < n := by
  unfold positive at h
  split at h
  · split at h
    · cases h
      omega
    · contradiction
  · contradiction

theorem positive_int {n : Nat} (h : 0 < n) : positive (.int n) = accepted n := by
  simp [positive, integer, h]

theorem oneOf_eq_accepted_iff {labels : List String} {ofLabel? : String → Option α} {j : Json}
    {a : α} :
    oneOf labels ofLabel? j = accepted a ↔ ∃ s, j = .str (.ofString s) ∧ ofLabel? s = some a := by
  cases j with
  | str t =>
    simp only [oneOf, characters_eq_accepted_iff, Text.string?_eq_some_iff, Json.str.injEq]
    apply exists_congr
    intro s
    apply and_congr_right
    intro _
    cases ofLabel? s <;> simp
  | _ => simp [oneOf]

end CanonicalSchema.Checked
