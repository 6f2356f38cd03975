import CanonicalSchema.Json.Document
import CanonicalSchema.Proofs.Json.LayoutReading

/-!
A laid-out value holds no carriage return, so its lines are as they were when its file is read. A
file with a laid-out value is read as that value.
-/

namespace CanonicalSchema

namespace Utf8

theorem unifyNewlinesOnto_of_not_mem {cs : List Char} (h : '\r' ∉ cs) (done : List Char) :
    unifyNewlinesOnto done cs = done.reverse ++ cs := by
  induction cs generalizing done with
  | nil => simp [unifyNewlinesOnto]
  | cons c cs ih =>
    rw [List.mem_cons, not_or] at h
    have hc : unifyNewlinesOnto done (c :: cs) = unifyNewlinesOnto (c :: done) cs := by
      rw [unifyNewlinesOnto]
      · rintro rest rfl
        exact absurd rfl h.1
      · rintro rfl
        exact absurd rfl h.1
    rw [hc, ih h.2, List.reverse_cons, List.append_assoc]
    rfl

@[simp] theorem unifyNewlines_of_not_mem {cs : List Char} (h : '\r' ∉ cs) :
    unifyNewlines cs = cs :=
  unifyNewlinesOnto_of_not_mem h []

end Utf8

namespace Json

variable {rest : List Char} {v : Json}

theorem return_not_mem_writeHex (width n : Nat) : '\r' ∉ Digits.writeHex width n := by
  have hd : ∀ d < 16, '\r' ≠ Digits.hexDigit d := by decide
  induction width generalizing n with
  | zero => simp [Digits.writeHex]
  | succ width ih =>
    rw [Digits.writeHex, List.mem_append, List.mem_singleton, not_or, ← Digits.hexDigit_mod]
    exact ⟨ih (n / 16), hd _ (Nat.mod_lt _ (by decide))⟩

theorem return_not_mem_escapeUnit (unit : Nat) (h : '\r' ∉ rest) : '\r' ∉ escapeUnit unit rest := by
  unfold escapeUnit
  simp [return_not_mem_writeHex, h]

theorem return_not_mem_escapePoint (p : CodePoint) (h : '\r' ∉ rest) :
    '\r' ∉ escapePoint escapeControl p rest := by
  cases p with
  | surrogate offset => exact return_not_mem_escapeUnit _ h
  | char c =>
    change '\r' ∉ escapeControl c rest
    unfold escapeControl
    split
    · next letter hs =>
      have hl : '\r' ≠ letter := by
        unfold shortEscape? at hs
        split at hs <;> cases hs <;> decide
      simp [hl, h]
    · next hs =>
      have hc : '\r' ≠ c := by
        rintro rfl
        simp [shortEscape?] at hs
      split
      · exact return_not_mem_escapeUnit _ h
      · simp [hc, h]

theorem return_not_mem_quoted (s : Text) (h : '\r' ∉ rest) :
    '\r' ∉ quoted escapeControl s rest := by
  unfold quoted
  rw [List.mem_cons, not_or]
  refine ⟨by decide, ?_⟩
  induction s.points with
  | nil => simp [h]
  | cons p ps ih => exact return_not_mem_escapePoint p ih

theorem return_not_mem_writeInt (n : Int) (h : '\r' ∉ rest) : '\r' ∉ Digits.writeInt n ++ rest := by
  have hw : '\r' ∉ Digits.write n.natAbs := by
    intro hm
    have := Digits.isDigit_of_mem_write _ hm
    contradiction
  unfold Digits.writeInt
  split <;> simp [hw, h]

theorem return_not_mem_newline (level : Nat) (h : '\r' ∉ rest) : '\r' ∉ newline level rest := by
  unfold newline
  simp [List.mem_replicate, h]

/-- No carriage return gets into what is written in front of a text without one. -/
def AddsNoReturn (v : Json) : Prop :=
  ∀ (level : Nat) (rest : List Char), '\r' ∉ rest → '\r' ∉ layout level v rest

theorem return_not_mem_layoutItems (level : Nat) {vs : List Json} (hv : ∀ v ∈ vs, v.AddsNoReturn)
    (h : '\r' ∉ rest) : '\r' ∉ layoutItems level vs rest := by
  induction vs with
  | nil => exact h
  | cons v vs ih =>
    rw [layoutItems, List.mem_cons, not_or]
    refine ⟨by decide, return_not_mem_newline _ ?_⟩
    exact hv v List.mem_cons_self _ _ (ih fun w hw => hv w (List.mem_cons_of_mem v hw))

theorem return_not_mem_member {cs : List Char} (k : Text) (h : '\r' ∉ cs) :
    '\r' ∉ quoted escapeControl k (':' :: ' ' :: cs) :=
  return_not_mem_quoted k (by simp [h])

theorem return_not_mem_layoutMembers (level : Nat) {ms : List (Text × Json)}
    (hv : ∀ m ∈ ms, m.2.AddsNoReturn) (h : '\r' ∉ rest) :
    '\r' ∉ layoutMembers level ms rest := by
  induction ms with
  | nil => exact h
  | cons m ms ih =>
    obtain ⟨k, v⟩ := m
    rw [layoutMembers, List.mem_cons, not_or]
    refine ⟨by decide, return_not_mem_newline _ (return_not_mem_member k ?_)⟩
    exact hv _ List.mem_cons_self _ _ (ih fun w hw => hv w (List.mem_cons_of_mem _ hw))

theorem addsNoReturn_of_spelt (h : v.Everywhere IsSpelt) : v.AddsNoReturn := by
  induction h with
  | @node j here below ih =>
    intro level rest hr
    cases j with
    | null => simpa [layout] using hr
    | bool b => cases b <;> simpa [layout, writeBool] using hr
    | int n => exact return_not_mem_writeInt n hr
    | float x => exact absurd trivial here.noFloat
    | str s => exact return_not_mem_quoted s hr
    | arr items =>
      cases items with
      | nil => simpa [layout] using hr
      | cons v vs =>
        rw [layout, List.mem_cons, not_or]
        refine ⟨by decide, return_not_mem_newline _ (ih v List.mem_cons_self _ _ ?_)⟩
        apply return_not_mem_layoutItems _ fun w hw => ih w (List.mem_cons_of_mem v hw)
        exact return_not_mem_newline _ (by simp [hr])
    | obj members =>
      have ih : ∀ m ∈ members, m.2.AddsNoReturn := fun m hm => ih _ (List.mem_map_of_mem hm)
      cases members with
      | nil => simpa [layout] using hr
      | cons m ms =>
        obtain ⟨k, v⟩ := m
        rw [layout, List.mem_cons, not_or]
        refine ⟨by decide, return_not_mem_newline _ (return_not_mem_member k ?_)⟩
        apply ih _ List.mem_cons_self
        apply return_not_mem_layoutMembers _ fun w hw => ih w (List.mem_cons_of_mem _ hw)
        exact return_not_mem_newline _ (by simp [hr])

theorem ofBytes_encode {depth : Depth} {text : List Char} (h : '\r' ∉ text) :
    ofBytes depth (Utf8.encode (String.ofList text)) = (read depth text).mapError .content := by
  unfold ofBytes
  simp only [Utf8.decode_encode, String.toList_ofList, Utf8.unifyNewlines_of_not_mem h]

theorem ofBytes_of_spelt {depth : Depth} (h : v.Everywhere IsSpelt) :
    ofBytes depth (Utf8.encode (String.ofList (layout 0 v ['\n']))) =
      (read depth (layout 0 v ['\n'])).mapError .content :=
  ofBytes_encode (addsNoReturn_of_spelt h 0 ['\n'] (by decide))

theorem ofBytes_layout {depth : Depth} (h : v.Everywhere IsReadable)
    (hv : v.NestsWithin depth.limit) :
    ofBytes depth (Utf8.encode (String.ofList (layout 0 v ['\n']))) = .ok v := by
  rw [ofBytes_of_spelt (h.imp fun _ hj => hj.toIsSpelt), read_layout h hv]
  rfl

end Json

end CanonicalSchema
