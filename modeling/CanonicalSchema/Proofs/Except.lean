import Mathlib.Data.List.Forall2

/-!
Computations that may fail: when one gives a result, when it fails, and which failure is that of a
whole list.
-/

namespace Except

variable {ε ε' α β : Type}

theorem map_eq_ok_iff {f : α → β} {x : Except ε α} {b : β} :
    x.map f = .ok b ↔ ∃ a, x = .ok a ∧ f a = b := by
  cases x <;> simp [Except.map]

@[simp] theorem mapError_eq_ok_iff {f : ε → ε'} {x : Except ε α} {a : α} :
    x.mapError f = .ok a ↔ x = .ok a := by
  cases x with
  | error e => constructor <;> intro h <;> cases h
  | ok a' => constructor <;> intro h <;> cases h <;> rfl

theorem map_eq_error_iff {f : α → β} {x : Except ε α} {e : ε} :
    x.map f = .error e ↔ x = .error e := by
  cases x <;> simp [Except.map]

theorem mapError_eq_error_iff {f : ε → ε'} {x : Except ε α} {e : ε'} :
    x.mapError f = .error e ↔ ∃ e', x = .error e' ∧ f e' = e := by
  cases x with
  | error e' =>
    constructor
    · exact fun h => ⟨e', rfl, Except.error.inj h⟩
    · rintro ⟨_, h, rfl⟩
      cases h
      rfl
  | ok a =>
    constructor
    · intro h
      cases h
    · rintro ⟨_, h, -⟩
      cases h

theorem bind_eq_ok_iff {f : α → Except ε β} {x : Except ε α} {b : β} :
    x >>= f = .ok b ↔ ∃ a, x = .ok a ∧ f a = .ok b := by
  cases x <;> simp [bind, Except.bind]

theorem bind_eq_error_iff {f : α → Except ε β} {x : Except ε α} {e : ε} :
    x >>= f = .error e ↔ x = .error e ∨ ∃ a, x = .ok a ∧ f a = .error e := by
  cases x <;> simp [bind, Except.bind]

/-! Lists -/

variable {f : α → Except ε β} {xs : List α}

theorem exists_mapM_eq_ok (h : ∀ x ∈ xs, ∃ y, f x = .ok y) :
    ∃ ys, xs.mapM f = .ok ys := by
  induction xs with
  | nil => exact ⟨[], rfl⟩
  | cons x xs ih =>
    rw [List.forall_mem_cons] at h
    obtain ⟨y, hy⟩ := h.1
    obtain ⟨ys, hys⟩ := ih h.2
    refine ⟨y :: ys, ?_⟩
    rw [List.mapM_cons, hy, hys]
    rfl

theorem mapM_eq_ok_iff {ys : List β} :
    xs.mapM f = .ok ys ↔ List.Forall₂ (fun x y => f x = .ok y) xs ys := by
  induction xs generalizing ys with
  | nil =>
    rw [List.mapM_nil, List.forall₂_nil_left_iff]
    exact ⟨fun h => (Except.ok.inj h).symm, fun h => h ▸ rfl⟩
  | cons x xs ih =>
    simp only [List.mapM_cons, bind_eq_ok_iff, List.forall₂_cons_left_iff, ih, pure, Except.pure,
      Except.ok.injEq]
    constructor
    · rintro ⟨y, hy, ys', hys, rfl⟩
      exact ⟨y, ys', hy, hys, rfl⟩
    · rintro ⟨y, ys', hy, hys, rfl⟩
      exact ⟨y, hy, ys', hys, rfl⟩

theorem mapM_of_first_error {before after : List α} {x : α} {e : ε}
    (hb : ∀ y ∈ before, ∃ z, f y = .ok z) (hx : f x = .error e) :
    (before ++ x :: after).mapM f = .error e := by
  obtain ⟨ys, hys⟩ := exists_mapM_eq_ok hb
  rw [List.mapM_append, hys, List.mapM_cons, hx]
  rfl

theorem all_ok_or_first_error (f : α → Except ε β) (xs : List α) :
    (∀ x ∈ xs, ∃ y, f x = .ok y) ∨
      ∃ before x after e, xs = before ++ x :: after ∧ (∀ y ∈ before, ∃ z, f y = .ok z) ∧
        f x = .error e := by
  induction xs with
  | nil => exact Or.inl (List.forall_mem_nil _)
  | cons x xs ih =>
    cases hx : f x with
    | error e => exact Or.inr ⟨[], x, xs, e, rfl, List.forall_mem_nil _, hx⟩
    | ok y =>
      rcases ih with hall | ⟨before, x', after, e, rfl, hb, he⟩
      · exact Or.inl (List.forall_mem_cons.2 ⟨⟨y, hx⟩, hall⟩)
      · exact Or.inr ⟨x :: before, x', after, e, rfl, List.forall_mem_cons.2 ⟨⟨y, hx⟩, hb⟩, he⟩

theorem all_ok_of_mapM {ys : List β} (h : xs.mapM f = .ok ys) : ∀ x ∈ xs, ∃ y, f x = .ok y := by
  rcases all_ok_or_first_error f xs with hall | ⟨before, x, after, e, rfl, hb, he⟩
  · exact hall
  · cases h.symm.trans (mapM_of_first_error hb he)

theorem mapM_congr {g : α → Except ε β} (h : ∀ x ∈ xs, f x = g x) : xs.mapM f = xs.mapM g := by
  induction xs with
  | nil => rfl
  | cons x xs ih =>
    rw [List.forall_mem_cons] at h
    rw [List.mapM_cons, List.mapM_cons, h.1, ih h.2]

theorem mapM_eq_error_iff {failure? : α → Option ε}
    (h : ∀ x ∈ xs, ∀ e, f x = .error e ↔ failure? x = some e) {e : ε} :
    xs.mapM f = .error e ↔ xs.findSome? failure? = some e := by
  induction xs with
  | nil => simp [pure, Except.pure]
  | cons x xs ih =>
    rw [List.forall_mem_cons] at h
    rw [List.mapM_cons, List.findSome?_cons]
    cases hx : f x with
    | error e' =>
      rw [(h.1 e').1 hx]
      simp [bind, Except.bind]
    | ok y =>
      have hnone : failure? x = none := by
        rw [Option.eq_none_iff_forall_ne_some]
        exact fun e' he' => nomatch hx.symm.trans ((h.1 e').2 he')
      rw [hnone, ← ih h.2]
      cases xs.mapM f <;> simp [bind, Except.bind, pure, Except.pure]

end Except
