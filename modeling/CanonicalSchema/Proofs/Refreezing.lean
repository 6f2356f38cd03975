import CanonicalSchema.Proofs.Freezing

/-!
Freezing what was frozen. It never fails, it changes nothing but numbers that were not narrowed
before, and so it makes no difference whether numbers are narrowed at once or later.
-/

namespace CanonicalSchema.Value

variable {a b narrow : Bool} {v w : Value}

theorem narrowed_or (a b : Bool) (x : Binary64) :
    (narrowed a x).freeze b = .ok (narrowed (a || b) x) := by
  cases a with
  | false => exact freeze_float b x
  | true =>
    cases hx : x.integer? with
    | none =>
      have hsame (c : Bool) : narrowed c x = float x := by simp [narrowed, hx]
      rw [hsame, hsame, freeze_float, hsame]
    | some n =>
      unfold narrowed
      rw [hx]
      rfl

theorem frozenTo_frozenMap {fs gs : Entries Text Value}
    (h : Entries.Related (FrozenTo narrow) fs gs) :
    FrozenTo narrow (frozenMap fs) (frozenMap gs) := by
  rw [frozenTo_of_entries (entries?_frozenMap fs), writes_text]
  exact ⟨Entries.ofList gs, h.ofList, frozenMap_ofList gs⟩

/-- What was frozen can be frozen again, and then it is as if both had been done at once. -/
theorem exists_frozenTo_of_frozenTo (b : Bool) (h : FrozenTo a v w) :
    ∃ u, FrozenTo b w u ∧ FrozenTo (a || b) v u := by
  induction v using induction generalizing w with
  | foreign v hv => exact nomatch (freeze_of_foreign a hv).symm.trans h
  | fixed v hv =>
    cases (freeze_of_fixed a hv).symm.trans h
    exact ⟨v, freeze_of_fixed b hv, freeze_of_fixed (a || b) hv⟩
  | float x =>
    cases (freeze_float a x).symm.trans h
    exact ⟨_, narrowed_or a b x, freeze_float (a || b) x⟩
  | sequence v items hv ih =>
    obtain ⟨ws, hws, rfl⟩ := (frozenTo_of_elements hv).1 h
    obtain ⟨us, hwu, hvu⟩ := List.exists_forall₂ hws fun v' hv' w hw => ih v' hv' hw
    exact ⟨tuple us, (frozenTo_of_elements rfl).2 ⟨us, hwu, rfl⟩,
      (frozenTo_of_elements hv).2 ⟨us, hvu, rfl⟩⟩
  | mapping v es hv ih =>
    obtain ⟨fs, hfs, rfl⟩ := (frozenTo_of_entries hv).1 h
    obtain ⟨gs, hfg, heg⟩ : ∃ gs, Entries.Related (FrozenTo b) fs gs ∧
        Entries.Related (FrozenTo (a || b)) (writes es) gs := by
      refine List.exists_forall₂ hfs fun e he f hef => ?_
      obtain ⟨e', he', rfl⟩ := List.mem_map.1 he
      obtain ⟨u, hwu, hvu⟩ := ih e' he' hef.2
      exact ⟨(f.1, u), ⟨rfl, hwu⟩, hef.1, hvu⟩
    exact ⟨frozenMap gs, frozenTo_frozenMap hfg, (frozenTo_of_entries hv).2 ⟨gs, heg, rfl⟩⟩

/-- Freezing twice is freezing once, with numbers narrowed if either narrows them. What was frozen
never fails to be frozen again, and in the same way it is frozen to itself. -/
theorem freeze_freeze (v : Value) (a b : Bool) :
    (v.freeze a >>= freeze b) = v.freeze (a || b) ∧
      ∀ w, v.freeze a = .ok w → (∃ u, w.freeze b = .ok u) ∧ w.freeze a = .ok w := by
  constructor
  · cases hw : v.freeze a with
    | error fault =>
      rw [freeze_eq_error_iff] at hw
      exact (freeze_eq_error_iff.2 hw).symm
    | ok w =>
      obtain ⟨u, hwu, hvu⟩ := exists_frozenTo_of_frozenTo b hw
      exact hwu.trans hvu.symm
  · intro w hw
    obtain ⟨u, hu, -⟩ := exists_frozenTo_of_frozenTo b hw
    obtain ⟨w', hww, hvw⟩ := exists_frozenTo_of_frozenTo a hw
    rw [Bool.or_self] at hvw
    cases hw.symm.trans hvw
    exact ⟨⟨u, hu⟩, hww⟩

def colliding : Value := mutableMap [
  (int 1, float ⟨0x4000000000000000⟩), (str "a", bool true),
  (str "1", list [float ⟨0x4004000000000000⟩, float ⟨0x4008000000000000⟩])]

theorem freeze_freeze_colliding :
    ∃ w, colliding.freeze false = .ok w ∧ w.freeze false = .ok w ∧
      w.freeze true = colliding.freeze true ∧
      colliding.freeze true =
        .ok (map [(str "1", tuple [float ⟨0x4004000000000000⟩, int 3]), (str "a", bool true)]) := by
  obtain ⟨htwice, hagain⟩ := freeze_freeze colliding false true
  have hkey : (int 1).text = ("1" : Text) := by decide +kernel
  have hresult : colliding.freeze true = .ok (frozenMap [((int 1).text, int 2), ("a", bool true),
      ("1", tuple [float ⟨0x4004000000000000⟩, int 3])]) := by rfl
  rw [hkey] at hresult
  exact ⟨_, rfl, (hagain _ rfl).2, htwice, hresult⟩

end CanonicalSchema.Value
