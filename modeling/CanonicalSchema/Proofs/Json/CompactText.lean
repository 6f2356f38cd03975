import CanonicalSchema.Json.Canonical
import CanonicalSchema.Proofs.Json.Numeral
import CanonicalSchema.Proofs.Json.QuotedString
import CanonicalSchema.Proofs.Json.Tree

/-!
What is written on one line is written of one value only, and can be told from what follows it. This
needs no bound on the integers: they may be too long to be read again.
-/

namespace CanonicalSchema.Json

/-- What a node has to be to be told from others by what it is written as. -/
structure IsDistinctive (j : Json) : Prop where
  noFloat : ¬ j.IsFloat
  texts : ∀ t ∈ j.texts, t.OfCharacters

/-! The first character gives the kind of a value -/

inductive Kind where
  | null
  | bool
  | int
  | float
  | str
  | arr
  | obj
deriving DecidableEq

def kind : Json → Kind
  | null => .null
  | bool _ => .bool
  | int _ => .int
  | float _ => .float
  | str _ => .str
  | arr _ => .arr
  | obj _ => .obj

/-- The kind of the values that start with a character; none that ends a container starts one. -/
def kindOfStart? (c : Char) : Option Kind :=
  if Digits.isDigit c ∨ c = '-' then some .int
  else if c = 'n' then some .null
  else if c = 't' ∨ c = 'f' then some .bool
  else if c = '"' then some .str
  else if c = '[' then some .arr
  else if c = '\x7b' then some .obj
  else none

variable {v w : Json} {rest rest' : List Char}

theorem kindOfStart?_writeInt (n : Int) :
    ∃ c cs, Digits.writeInt n ++ rest = c :: cs ∧ kindOfStart? c = some .int := by
  unfold Digits.writeInt
  split
  · exact ⟨_, _, rfl, rfl⟩
  · obtain ⟨d, ds, hw, hd⟩ := Digits.exists_write_cons n.natAbs
    rw [hw]
    exact ⟨d, ds ++ rest, rfl, if_pos (Or.inl hd)⟩

theorem kindOfStart?_compact (hf : ¬ v.IsFloat) (rest : List Char) :
    ∃ c cs, compact v rest = c :: cs ∧ kindOfStart? c = some v.kind := by
  cases v with
  | null => exact ⟨_, _, rfl, rfl⟩
  | bool b => cases b <;> exact ⟨_, _, rfl, rfl⟩
  | int n => exact kindOfStart?_writeInt n
  | float x => exact absurd trivial hf
  | str s => exact ⟨_, _, rfl, rfl⟩
  | arr items => cases items <;> exact ⟨_, _, rfl, rfl⟩
  | obj members => cases members <;> exact ⟨_, _, rfl, rfl⟩

theorem kind_eq_of_compact (hv : ¬ v.IsFloat) (hw : ¬ w.IsFloat)
    (h : compact v rest = compact w rest') : v.kind = w.kind := by
  obtain ⟨c, cs, hc, hk⟩ := kindOfStart?_compact hv rest
  obtain ⟨c', cs', hc', hk'⟩ := kindOfStart?_compact hw rest'
  rw [hc, hc'] at h
  apply Option.some.inj
  rw [← hk, ← hk', (List.cons.inj h).1]

theorem compact_ne_close (hf : ¬ v.IsFloat) : compact v rest ≠ ']' :: rest' := by
  intro h
  obtain ⟨c, cs, hc, hk⟩ := kindOfStart?_compact hf rest
  rw [hc] at h
  rw [(List.cons.inj h).1] at hk
  contradiction

/-! Containers -/

def IsTold (v : Json) : Prop :=
  ∀ {w : Json} {rest rest' : List Char}, w.Everywhere IsDistinctive → EndsDigits rest →
    EndsDigits rest' → compact v rest = compact w rest' → v = w ∧ rest = rest'

theorem endsDigits_compactItems (vs : List Json) : EndsDigits (compactItems vs (']' :: rest)) := by
  cases vs <;> rintro c ⟨rfl⟩ <;> decide

theorem endsDigits_compactMembers (ms : List (Text × Json)) :
    EndsDigits (compactMembers ms ('\x7d' :: rest)) := by
  cases ms <;> rintro c ⟨rfl⟩ <;> decide

theorem compactItems_inj {vs ws : List Json} (hv : ∀ v ∈ vs, v.IsTold)
    (hw : ∀ w ∈ ws, w.Everywhere IsDistinctive)
    (h : compactItems vs (']' :: rest) = compactItems ws (']' :: rest')) :
    vs = ws ∧ rest = rest' := by
  induction vs generalizing ws with
  | nil =>
    cases ws with
    | nil => exact ⟨rfl, (List.cons.inj h).2⟩
    | cons w ws => cases h
  | cons v vs ih =>
    cases ws with
    | nil => cases h
    | cons w ws =>
      rw [List.forall_mem_cons] at hv hw
      simp only [compactItems, List.cons.injEq, true_and] at h
      obtain ⟨rfl, htail⟩ := hv.1 hw.1 (endsDigits_compactItems vs) (endsDigits_compactItems ws) h
      obtain ⟨rfl, hr⟩ := ih hv.2 hw.2 htail
      exact ⟨rfl, hr⟩

theorem compactMember_inj {k k' : Text} (hk : k.OfCharacters) (hk' : k'.OfCharacters)
    (hv : v.IsTold) (hw : w.Everywhere IsDistinctive) (hr : EndsDigits rest)
    (hr' : EndsDigits rest')
    (h : quoted escapeNonAscii k (':' :: ' ' :: compact v rest) =
      quoted escapeNonAscii k' (':' :: ' ' :: compact w rest')) :
    (k, v) = (k', w) ∧ rest = rest' := by
  obtain ⟨rfl, hvalue⟩ := quoted_inj readBack_escapeNonAscii hk hk' h
  simp only [List.cons.injEq, true_and] at hvalue
  obtain ⟨rfl, hrest⟩ := hv hw hr hr' hvalue
  exact ⟨rfl, hrest⟩

theorem compactMembers_inj {ms ns : List (Text × Json)} (hv : ∀ m ∈ ms, m.2.IsTold)
    (hk : ∀ m ∈ ms, m.1.OfCharacters) (hw : ∀ m ∈ ns, m.2.Everywhere IsDistinctive)
    (hk' : ∀ m ∈ ns, m.1.OfCharacters)
    (h : compactMembers ms ('\x7d' :: rest) = compactMembers ns ('\x7d' :: rest')) :
    ms = ns ∧ rest = rest' := by
  induction ms generalizing ns with
  | nil =>
    cases ns with
    | nil => exact ⟨rfl, (List.cons.inj h).2⟩
    | cons n ns => cases h
  | cons m ms ih =>
    cases ns with
    | nil => cases h
    | cons n ns =>
      rw [List.forall_mem_cons] at hv hk hw hk'
      simp only [compactMembers, List.cons.injEq, true_and] at h
      obtain ⟨hm, htail⟩ := compactMember_inj hk.1 hk'.1 hv.1 hw.1 (endsDigits_compactMembers ms)
        (endsDigits_compactMembers ns) h
      obtain ⟨rfl, hr⟩ := ih hv.2 hk.2 hw.2 hk'.2 htail
      exact ⟨congrArg (· :: ms) hm, hr⟩

theorem isTold_arr {items : List Json} (hv : ∀ v ∈ items, v.IsTold)
    (hf : ∀ v ∈ items, ¬ v.IsFloat) : (arr items).IsTold := by
  intro w rest rest' hw hr hr' h
  have hk := kind_eq_of_compact id hw.here.noFloat h
  cases w with
  | arr items' =>
    have hw := (everywhere_arr_iff.1 hw).2
    cases items with
    | nil =>
      cases items' with
      | nil => exact ⟨rfl, by simpa [compact] using h⟩
      | cons w ws =>
        simp only [compact, List.cons.injEq, true_and] at h
        exact absurd h.symm (compact_ne_close (hw w List.mem_cons_self).here.noFloat)
    | cons v vs =>
      cases items' with
      | nil =>
        simp only [compact, List.cons.injEq, true_and] at h
        exact absurd h (compact_ne_close (hf v List.mem_cons_self))
      | cons w ws =>
        rw [List.forall_mem_cons] at hv hw
        simp only [compact, List.cons.injEq, true_and] at h
        obtain ⟨rfl, htail⟩ := hv.1 hw.1 (endsDigits_compactItems vs)
          (endsDigits_compactItems ws) h
        obtain ⟨rfl, hrest⟩ := compactItems_inj hv.2 hw.2 htail
        exact ⟨rfl, hrest⟩
  | _ => contradiction

theorem isTold_obj {members : List (Text × Json)} (hv : ∀ m ∈ members, m.2.IsTold)
    (hl : ∀ m ∈ members, m.1.OfCharacters) : (obj members).IsTold := by
  intro w rest rest' hw hr hr' h
  have hk := kind_eq_of_compact id hw.here.noFloat h
  cases w with
  | obj members' =>
    have hl' : ∀ m ∈ members', m.1.OfCharacters :=
      fun m hm => hw.here.texts _ (List.mem_map_of_mem hm)
    have hw := (everywhere_obj_iff.1 hw).2
    cases members with
    | nil =>
      cases members' with
      | nil => exact ⟨rfl, by simpa [compact] using h⟩
      | cons n ns => simp [compact, quoted] at h
    | cons m ms =>
      cases members' with
      | nil => simp [compact, quoted] at h
      | cons n ns =>
        rw [List.forall_mem_cons] at hv hl hw hl'
        simp only [compact, List.cons.injEq, true_and] at h
        obtain ⟨hm, htail⟩ := compactMember_inj hl.1 hl'.1 hv.1 hw.1
          (endsDigits_compactMembers ms) (endsDigits_compactMembers ns) h
        obtain ⟨rfl, hrest⟩ := compactMembers_inj hv.2 hl.2 hw.2 hl'.2 htail
        exact ⟨congrArg (fun m => obj (m :: ms)) hm, hrest⟩
  | _ => contradiction

theorem isTold_of_distinctive (h : v.Everywhere IsDistinctive) : v.IsTold := by
  induction h with
  | @node j here below ih =>
    cases j with
    | float x => exact absurd trivial here.noFloat
    | arr items => exact isTold_arr ih fun v hv => (below v hv).here.noFloat
    | obj members =>
      exact isTold_obj (fun m hm => ih _ (List.mem_map_of_mem hm))
        fun m hm => here.texts _ (List.mem_map_of_mem hm)
    | null =>
      intro w rest rest' hw hr hr' h
      have hk := kind_eq_of_compact id hw.here.noFloat h
      cases w with
      | null => exact ⟨rfl, List.append_cancel_left h⟩
      | _ => contradiction
    | bool b =>
      intro w rest rest' hw hr hr' h
      have hk := kind_eq_of_compact id hw.here.noFloat h
      cases w with
      | bool b' => cases b <;> cases b' <;> simp_all [compact, writeBool]
      | _ => contradiction
    | int n =>
      intro w rest rest' hw hr hr' h
      have hk := kind_eq_of_compact id hw.here.noFloat h
      cases w with
      | int m =>
        obtain ⟨rfl, hrest⟩ := writeInt_inj hr hr' h
        exact ⟨rfl, hrest⟩
      | _ => contradiction
    | str s =>
      intro w rest rest' hw hr hr' h
      have hk := kind_eq_of_compact id hw.here.noFloat h
      cases w with
      | str t =>
        obtain ⟨rfl, hrest⟩ := quoted_inj readBack_escapeNonAscii
          (here.texts s List.mem_cons_self) (hw.here.texts t List.mem_cons_self) h
        exact ⟨rfl, hrest⟩
      | _ => contradiction

theorem compact_inj (hv : v.Everywhere IsDistinctive) (hw : w.Everywhere IsDistinctive)
    (h : compact v [] = compact w []) : v = w :=
  (isTold_of_distinctive hv hw endsDigits_nil endsDigits_nil h).1

end CanonicalSchema.Json
