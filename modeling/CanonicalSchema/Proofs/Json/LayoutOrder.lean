import CanonicalSchema.Json.Layout
import CanonicalSchema.Proofs.Entries
import CanonicalSchema.Proofs.Json.QuotedString

/-!
What a laid-out value says about order. Whatever is laid out can be taken off the front of a text,
and members that are laid out alike stand in the same order.
-/

namespace CanonicalSchema.Json

variable {rest rest' : List Char}

/-! The same beginning leaves the same rest -/

theorem escapePoint_rest_inj (p : CodePoint)
    (h : escapePoint escapeControl p rest = escapePoint escapeControl p rest') : rest = rest' := by
  have hunit : ∀ n, escapeUnit n rest = escapeUnit n rest' → rest = rest' := by
    intro n hn
    unfold escapeUnit at hn
    simpa using hn
  cases p with
  | surrogate offset => exact hunit _ h
  | char c =>
    change escapeControl c rest = escapeControl c rest' at h
    unfold escapeControl at h
    cases hs : shortEscape? c with
    | some letter => simpa [hs] using h
    | none =>
      rw [hs] at h
      by_cases hc : c.toNat < 32
      · simp only [hc, if_true] at h
        exact hunit _ h
      · simpa [hc] using h

theorem quoted_rest_inj (s : Text)
    (h : quoted escapeControl s rest = quoted escapeControl s rest') : rest = rest' := by
  have hpoints : ∀ (ps : List CodePoint) (cs cs' : List Char),
      ps.foldr (escapePoint escapeControl) cs = ps.foldr (escapePoint escapeControl) cs' →
        cs = cs' := by
    intro ps cs cs'
    induction ps with
    | nil => exact id
    | cons p ps ih => exact fun h => ih (escapePoint_rest_inj p h)
  exact List.tail_eq_of_cons_eq (hpoints _ _ _ (List.tail_eq_of_cons_eq h))

theorem newline_rest_inj (level : Nat) (h : newline level rest = newline level rest') :
    rest = rest' :=
  List.append_cancel_left (List.tail_eq_of_cons_eq h)

mutual

theorem layout_rest_inj (level : Nat) : ∀ (v : Json) {rest rest' : List Char},
    layout level v rest = layout level v rest' → rest = rest'
  | null, _, _, h => List.append_cancel_left h
  | bool _, _, _, h => List.append_cancel_left h
  | int _, _, _, h => List.append_cancel_left h
  | float _, _, _, h => List.append_cancel_left h
  | str s, _, _, h => quoted_rest_inj s h
  | arr [], _, _, h => by simpa [layout] using h
  | arr (v :: vs), _, _, h => by
    simp only [layout, List.cons.injEq, true_and] at h
    have htail := layoutItems_rest_inj (level + 1) vs
      (layout_rest_inj (level + 1) v (newline_rest_inj _ h))
    simpa using newline_rest_inj _ htail
  | obj [], _, _, h => by simpa [layout] using h
  | obj ((k, v) :: ms), _, _, h => by
    simp only [layout, List.cons.injEq, true_and] at h
    have hvalue := quoted_rest_inj k (newline_rest_inj _ h)
    simp only [List.cons.injEq, true_and] at hvalue
    have htail := layoutMembers_rest_inj (level + 1) ms (layout_rest_inj (level + 1) v hvalue)
    simpa using newline_rest_inj _ htail

theorem layoutItems_rest_inj (level : Nat) : ∀ (vs : List Json) {rest rest' : List Char},
    layoutItems level vs rest = layoutItems level vs rest' → rest = rest'
  | [], _, _, h => h
  | v :: vs, _, _, h => by
    simp only [layoutItems, List.cons.injEq, true_and] at h
    exact layoutItems_rest_inj level vs (layout_rest_inj level v (newline_rest_inj _ h))

theorem layoutMembers_rest_inj (level : Nat) :
    ∀ (ms : List (Text × Json)) {rest rest' : List Char},
      layoutMembers level ms rest = layoutMembers level ms rest' → rest = rest'
  | [], _, _, h => h
  | (k, v) :: ms, _, _, h => by
    simp only [layoutMembers, List.cons.injEq, true_and] at h
    have hvalue := quoted_rest_inj k (newline_rest_inj _ h)
    simp only [List.cons.injEq, true_and] at hvalue
    exact layoutMembers_rest_inj level ms (layout_rest_inj level v hvalue)

end

/-! Members in another order -/

variable {level : Nat} {ms ns : Entries Text Json}

theorem eq_of_layoutMembers (hp : ms.Perm ns) (hn : ms.keys.Nodup)
    (hk : ∀ k ∈ ms.keys, k.OfCharacters)
    (h : layoutMembers level ms rest = layoutMembers level ns rest) : ms = ns := by
  induction ms generalizing ns with
  | nil => exact hp.nil_eq
  | cons m ms ih =>
    cases ns with
    | nil => exact absurd hp.symm.nil_eq (by simp)
    | cons n ns =>
      obtain ⟨k, v⟩ := m
      obtain ⟨k', v'⟩ := n
      have hmem : (k', v') ∈ (k, v) :: ms := hp.mem_iff.2 List.mem_cons_self
      simp only [layoutMembers, List.cons.injEq, true_and] at h
      obtain ⟨rfl, hvalue⟩ := quoted_inj readBack_escapeControl (hk k List.mem_cons_self)
        (hk k' (List.mem_map_of_mem hmem)) (newline_rest_inj _ h)
      -- The labels are the same, so the values are, and what follows them is laid out alike again.
      obtain rfl : v = v' := by
        have hfirst := Entries.get?_of_mem hn (List.mem_cons_self (a := (k, v)) (l := ms))
        exact Option.some.inj (hfirst.symm.trans (Entries.get?_of_mem hn hmem))
      simp only [List.cons.injEq, true_and] at hvalue
      rw [Entries.keys_cons, List.nodup_cons] at hn
      rw [ih hp.cons_inv hn.2 (fun j hj => hk j (List.mem_cons_of_mem _ hj))
        (layout_rest_inj level v hvalue)]

/-- An object starts with a brace where its first member, behind others, starts with a comma. -/
theorem layoutMembers_of_layout {m n : Text × Json} {ms ns : List (Text × Json)}
    (h : layout level (obj (m :: ms)) rest = layout level (obj (n :: ns)) rest) :
    layoutMembers (level + 1) (m :: ms) (newline level ('\x7d' :: rest)) =
      layoutMembers (level + 1) (n :: ns) (newline level ('\x7d' :: rest)) :=
  congrArg (fun cs : List Char => ',' :: cs.tail) h

theorem eq_of_layout_obj (hp : ms.Perm ns) (hn : ms.keys.Nodup)
    (hk : ∀ k ∈ ms.keys, k.OfCharacters)
    (h : layout level (obj ms) rest = layout level (obj ns) rest) : ms = ns := by
  cases ms with
  | nil => exact hp.nil_eq
  | cons m ms =>
    cases ns with
    | nil => exact absurd hp.symm.nil_eq (by simp)
    | cons n ns => exact eq_of_layoutMembers hp hn hk (layoutMembers_of_layout h)

theorem layoutMembers_append (ms ns : List (Text × Json)) :
    layoutMembers level (ms ++ ns) rest = layoutMembers level ms (layoutMembers level ns rest) := by
  induction ms with
  | nil => rfl
  | cons m ms ih =>
    obtain ⟨k, v⟩ := m
    rw [List.cons_append, layoutMembers, layoutMembers, ih]

theorem layout_eq_of_member (before : List (Text × Json)) {after : List (Text × Json)} {k : Text}
    {v w : Json}
    (h : layout level (obj (before ++ (k, v) :: after)) rest =
      layout level (obj (before ++ (k, w) :: after)) rest) :
    ∃ more, layout (level + 1) v more = layout (level + 1) w more := by
  have hmembers : layoutMembers (level + 1) (before ++ (k, v) :: after)
      (newline level ('\x7d' :: rest)) = layoutMembers (level + 1) (before ++ (k, w) :: after)
      (newline level ('\x7d' :: rest)) := by
    cases before <;> exact layoutMembers_of_layout h
  rw [layoutMembers_append, layoutMembers_append] at hmembers
  have hmember := layoutMembers_rest_inj (level + 1) before hmembers
  simp only [layoutMembers, List.cons.injEq, true_and] at hmember
  have hvalue := quoted_rest_inj k (newline_rest_inj _ hmember)
  simp only [List.cons.injEq, true_and] at hvalue
  exact ⟨_, hvalue⟩

end CanonicalSchema.Json
