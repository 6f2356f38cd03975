import CanonicalSchema.Json.Layout
import CanonicalSchema.Proofs.Entries
import CanonicalSchema.Proofs.Json.Numeral
import CanonicalSchema.Proofs.Json.QuotedString
import CanonicalSchema.Proofs.Json.Run
import CanonicalSchema.Proofs.Json.Tree

/-!
What is laid out on indented lines is read again: a value without floating-point numbers, whose
texts are made of characters, whose objects repeat no label, whose integers are short enough and
whose levels the stack has room for.
-/

namespace CanonicalSchema.Json

/-- What a node has to be for its text to be that of no other. -/
structure IsSpelt (j : Json) : Prop where
  noFloat : ¬ j.IsFloat
  texts : ∀ t ∈ j.texts, t.OfCharacters
  labels : j.HasDistinctLabels

/-- What a node has to be to be written so that it can be read again. -/
structure IsReadable (j : Json) : Prop extends IsSpelt j where
  integer : ∀ n, j = .int n → IsShortInteger n

variable {depth : Depth} {levels : Nat} {frames : List Frame} {rest cs : List Char} {v : Json}

theorem isReadable_iff : v.IsReadable ↔ ¬ v.IsFloat ∧ (∀ t ∈ v.texts, t.OfCharacters) ∧
    v.HasDistinctLabels ∧ ∀ n, v = .int n → IsShortInteger n :=
  ⟨fun h => ⟨h.noFloat, h.texts, h.labels, h.integer⟩, fun h => ⟨⟨h.1, h.2.1, h.2.2.1⟩, h.2.2.2⟩⟩

/-! How a written value starts -/

def isStart (c : Char) : Bool := !isSpace c && c != ']' && c != '\ufeff'

def StartsValue (cs : List Char) : Prop := ∃ c rest, cs = c :: rest ∧ isStart c = true

theorem startsValue_cons {c : Char} (h : isStart c = true) : StartsValue (c :: rest) :=
  ⟨c, rest, rfl, h⟩

theorem startsValue_writeInt (n : Int) : StartsValue (Digits.writeInt n ++ rest) := by
  unfold Digits.writeInt
  split
  · exact startsValue_cons rfl
  · obtain ⟨d, ds, hw, hd⟩ := Digits.exists_write_cons n.natAbs
    rw [hw]
    refine startsValue_cons ?_
    have hne : ∀ c, Digits.isDigit c = false → d ≠ c := fun _ => Digits.ne_of_isDigit hd
    simp [isStart, isSpace, hne ' ' rfl, hne '\t' rfl, hne '\n' rfl, hne '\r' rfl, hne ']' rfl,
      hne '\ufeff' rfl]

theorem startsValue_layout (level : Nat) (hf : ¬ v.IsFloat) :
    StartsValue (layout level v rest) := by
  cases v with
  | null => exact startsValue_cons rfl
  | bool b => cases b <;> exact startsValue_cons rfl
  | int n => exact startsValue_writeInt n
  | float x => exact absurd trivial hf
  | str s => exact startsValue_cons rfl
  | arr items => cases items <;> exact startsValue_cons rfl
  | obj members => cases members <;> exact startsValue_cons rfl

theorem StartsValue.dropSpace (h : StartsValue cs) : cs.dropWhile isSpace = cs := by
  obtain ⟨c, rest, rfl, hc⟩ := h
  simp only [isStart, Bool.and_eq_true, Bool.not_eq_true'] at hc
  rw [List.dropWhile_cons_of_neg (by simp [hc.1.1])]

theorem run_elementOrEnd (h : StartsValue cs) :
    run depth .elementOrEnd frames cs = run depth .value (.array [] :: frames) cs := by
  apply run_congr
  rw [h.dropSpace]
  obtain ⟨c, rest, rfl, hc⟩ := h
  simp only [isStart, Bool.and_eq_true, bne_iff_ne] at hc
  simp only [step]
  split
  · next h =>
    exact absurd (List.cons.inj h).1 hc.1.2
  · rfl

/-! Scalars -/

theorem run_value {value : Json} (hs : StartsValue cs)
    (h : scanValue cs = .ok (.scalar value, rest)) :
    run depth .value frames cs = run depth (.endOf value) frames rest := by
  apply run_of_step (.endOf value) frames
  rw [hs.dropSpace]
  simp only [step, openValue, h]

theorem scanWord?_writeInt (n : Int) (rest : List Char) :
    scanWord? (Digits.writeInt n ++ rest) = none := by
  obtain ⟨d, ds, hw, hd⟩ := Digits.exists_write_cons n.natAbs
  have hne : ∀ c, Digits.isDigit c = false → c ≠ d := fun _ hc => (Digits.ne_of_isDigit hd hc).symm
  unfold Digits.writeInt
  rw [hw]
  split <;>
    simp [scanWord?, words, afterWord?, hne 'n' rfl, hne 't' rfl, hne 'f' rfl, hne 'N' rfl,
      hne 'I' rfl, hne '-' rfl]

theorem scanValue_writeInt {n : Int} (hn : IsShortInteger n) (hr : EndsNumber rest) :
    scanValue (Digits.writeInt n ++ rest) = .ok (.scalar (.int n), rest) := by
  have hword := scanWord?_writeInt n rest
  have hnumber := scanNumber_writeInt hn hr
  unfold scanValue
  split
  · next h => simp [h, scanNumber, scanMinus, scanWhole, Digits.isDigit] at hnumber
  · next h => simp [h, scanNumber, scanMinus, scanWhole, Digits.isDigit] at hnumber
  · next h => simp [h, scanNumber, scanMinus, scanWhole, Digits.isDigit] at hnumber
  · rw [hword, hnumber]
    rfl

theorem scanValue_quoted {s : Text} (hs : s.OfCharacters) :
    scanValue (quoted escapeControl s rest) = .ok (.scalar (.str s), rest) := by
  obtain ⟨body, hb, hscan⟩ := scanString_quoted readBack_escapeControl hs rest
  rw [hb]
  simp only [scanValue, hscan]
  rfl

/-! Labels -/

theorem step_member {members : Entries Text Json} {s : Text} (hs : s.OfCharacters) :
    openMember members frames (quoted escapeControl s rest) =
      .ok (.go (.colon members s) frames rest) := by
  obtain ⟨body, hb, hscan⟩ := scanString_quoted readBack_escapeControl hs rest
  rw [hb]
  simp only [openMember, hscan]
  rfl

theorem run_label {members : Entries Text Json} {s : Text} (hs : s.OfCharacters) :
    run depth (.member members) frames (quoted escapeControl s (':' :: ' ' :: cs)) =
      run depth .value (.object members s :: frames) cs := by
  have hcolon : step depth (.colon members s) frames ((':' :: ' ' :: cs).dropWhile isSpace) =
      .ok (.go .value (.object members s :: frames) (' ' :: cs)) := rfl
  calc
    run depth (.member members) frames (quoted escapeControl s (':' :: ' ' :: cs))
      = run depth (.colon members s) frames (':' :: ' ' :: cs) := run_of_step _ _ (step_member hs)
    _ = run depth .value (.object members s :: frames) (' ' :: cs) := run_of_step _ _ hcolon
    _ = run depth .value (.object members s :: frames) cs := run_space rfl

theorem run_memberOrEnd {s : Text} :
    run depth .memberOrEnd frames (quoted escapeControl s rest) =
      run depth (.member []) frames (quoted escapeControl s rest) :=
  run_congr rfl

/-! Containers -/

theorem run_newline {expecting : Expecting} (level : Nat) :
    run depth expecting frames (newline level cs) = run depth expecting frames cs := by
  unfold newline
  rw [run_space rfl]
  induction 2 * level with
  | zero => rfl
  | succ n ih => rw [List.replicate_succ, List.cons_append, run_space rfl, ih]

theorem endsNumber_layoutItems (level level' : Nat) (vs : List Json) :
    EndsNumber (layoutItems level vs (newline level' (']' :: rest))) := by
  cases vs <;> rintro c ⟨rfl⟩ <;> decide

theorem endsNumber_layoutMembers (level level' : Nat) (ms : List (Text × Json)) :
    EndsNumber (layoutMembers level ms (newline level' ('\x7d' :: rest))) := by
  cases ms <;> rintro c ⟨rfl⟩ <;> decide

/-- A value of so many levels that is read wherever it is laid out and fits on the stack. -/
def ReadsLayout (depth : Depth) (levels : Nat) (v : Json) : Prop :=
  ∀ (level : Nat) (frames : List Frame) (rest : List Char), frames.length + levels ≤ depth.limit →
    EndsNumber rest →
      run depth .value frames (layout level v rest) = run depth (.endOf v) frames rest

theorem run_layoutItems (level level' : Nat) {vs : List Json}
    (h : ∀ w ∈ vs, ReadsLayout depth levels w) (hd : frames.length + 1 + levels ≤ depth.limit)
    (v : Json) (items : List Json) :
    run depth (.endOf v) (.array items :: frames)
        (layoutItems level vs (newline level' (']' :: rest))) =
      run depth (.endOf (.arr (items.reverse ++ v :: vs))) frames rest := by
  induction vs generalizing v items with
  | nil =>
    rw [layoutItems, run_newline]
    rw [run_of_step (.endOf (.arr (v :: items).reverse)) frames rfl,
      List.reverse_cons]
  | cons w vs ih =>
    rw [layoutItems, run_of_step .value (.array (v :: items) :: frames) rfl,
      run_newline, h w List.mem_cons_self _ (.array (v :: items) :: frames) _ hd
        (endsNumber_layoutItems level level' vs),
      ih (fun u hu => h u (List.mem_cons_of_mem w hu)), List.reverse_cons, List.append_assoc]
    rfl

theorem put_of_nodup {members : Entries Text Json} {k : Text} {ms : List (Text × Json)}
    (hn : (members ++ (k, v) :: ms : Entries Text Json).keys.Nodup) :
    members.put k v = members ++ [(k, v)] := by
  apply Entries.put_of_not_mem
  intro hk
  simp only [Entries.keys, List.map_append, List.map_cons, List.nodup_append] at hn
  exact hn.2.2 k hk k List.mem_cons_self rfl

theorem run_layoutMembers (level level' : Nat) {ms : List (Text × Json)}
    (h : ∀ m ∈ ms, ReadsLayout depth levels m.2) (hd : frames.length + 1 + levels ≤ depth.limit)
    (hl : ∀ m ∈ ms, m.1.OfCharacters) {k : Text} (v : Json) (members : Entries Text Json)
    (hn : (members ++ (k, v) :: ms : Entries Text Json).keys.Nodup) :
    run depth (.endOf v) (.object members k :: frames)
        (layoutMembers level ms (newline level' ('\x7d' :: rest))) =
      run depth (.endOf (.obj (members ++ (k, v) :: ms))) frames rest := by
  induction ms generalizing k v members with
  | nil =>
    rw [layoutMembers, run_newline]
    rw [run_of_step (.endOf (.obj (members.put k v))) frames rfl,
      put_of_nodup hn]
  | cons m ms ih =>
    obtain ⟨k', w⟩ := m
    rw [layoutMembers, run_of_step (.member (members.put k v)) frames rfl,
      run_newline, run_label (hl _ List.mem_cons_self), put_of_nodup hn,
      h _ List.mem_cons_self _ (.object _ k' :: frames) _ hd
        (endsNumber_layoutMembers level level' ms),
      ih (fun u hu => h u (List.mem_cons_of_mem _ hu))
        (fun u hu => hl u (List.mem_cons_of_mem _ hu)) w _
        (by simpa only [List.append_assoc, List.singleton_append] using hn),
      List.append_assoc]
    rfl

theorem run_open (c : Container) (hd : frames.length < depth.limit)
    (h : scanValue cs = .ok (.container c, rest)) (hs : StartsValue cs) :
    run depth .value frames cs = run depth c.first frames rest := by
  apply run_of_step
  rw [hs.dropSpace]
  simp only [step, openValue, h, if_pos hd]

theorem readsLayout_arr {items : List Json} (h : ∀ v ∈ items, ReadsLayout depth levels v)
    (hf : ∀ v ∈ items, ¬ v.IsFloat) : ReadsLayout depth (levels + 1) (.arr items) := by
  intro level frames rest hd hr
  have hroom : frames.length < depth.limit := by omega
  have hd : frames.length + 1 + levels ≤ depth.limit := by omega
  cases items with
  | nil =>
    rw [layout, run_open .array hroom rfl (startsValue_cons rfl)]
    exact run_of_step _ _ rfl
  | cons v vs =>
    rw [layout, run_open .array hroom rfl (startsValue_cons rfl), Container.first, run_newline,
      run_elementOrEnd (startsValue_layout _ (hf v List.mem_cons_self)),
      h v List.mem_cons_self _ (.array [] :: frames) _ hd (endsNumber_layoutItems _ _ vs),
      run_layoutItems _ _ (fun w hw => h w (List.mem_cons_of_mem v hw)) hd]
    rfl

theorem readsLayout_obj {members : List (Text × Json)}
    (h : ∀ m ∈ members, ReadsLayout depth levels m.2) (hl : ∀ m ∈ members, m.1.OfCharacters)
    (hn : (members.map Prod.fst).Nodup) : ReadsLayout depth (levels + 1) (.obj members) := by
  intro level frames rest hd hr
  have hroom : frames.length < depth.limit := by omega
  have hd : frames.length + 1 + levels ≤ depth.limit := by omega
  cases members with
  | nil =>
    rw [layout, run_open .object hroom rfl (startsValue_cons rfl)]
    exact run_of_step _ _ rfl
  | cons m ms =>
    obtain ⟨k, v⟩ := m
    rw [layout, run_open .object hroom rfl (startsValue_cons rfl), Container.first, run_newline,
      run_memberOrEnd, run_label (hl _ List.mem_cons_self),
      h _ List.mem_cons_self _ (.object [] k :: frames) _ hd (endsNumber_layoutMembers _ _ ms),
      run_layoutMembers _ _ (fun w hw => h w (List.mem_cons_of_mem _ hw)) hd
        (fun w hw => hl w (List.mem_cons_of_mem _ hw)) v [] hn]
    rfl

theorem readsLayout_of_readable (h : v.Everywhere IsReadable) (hv : v.NestsWithin levels) :
    ReadsLayout depth levels v := by
  induction h generalizing levels with
  | @node j here below ih =>
    cases j with
    | null =>
      intro level frames rest _ hr
      exact run_value (startsValue_cons rfl) rfl
    | bool b =>
      intro level frames rest _ hr
      cases b <;> exact run_value (startsValue_cons rfl) rfl
    | int n =>
      intro level frames rest _ hr
      exact run_value (startsValue_writeInt n) (scanValue_writeInt (here.integer n rfl) hr)
    | float x => exact absurd trivial here.noFloat
    | str s =>
      intro level frames rest _ hr
      exact run_value (startsValue_cons rfl) (scanValue_quoted (here.texts s List.mem_cons_self))
    | arr items =>
      obtain ⟨n, rfl, hitems⟩ := hv.parts trivial
      exact readsLayout_arr (fun v hv => ih v hv (hitems v hv))
        fun v hv => (below v hv).here.noFloat
    | obj members =>
      obtain ⟨n, rfl, hmembers⟩ := hv.parts trivial
      refine readsLayout_obj (fun m hm => ?_) (fun m hm => ?_) here.labels
      · exact ih _ (List.mem_map_of_mem hm) (hmembers _ (List.mem_map_of_mem hm))
      · exact here.texts _ (List.mem_map_of_mem hm)

theorem read_of_run {outcome : Except Stop Json} (hs : StartsValue cs)
    (h : run depth .value [] cs = outcome) :
    read depth cs = outcome.mapError (Stop.located cs) := by
  obtain ⟨c, rest, rfl, hc⟩ := hs
  unfold read
  split
  · next htext =>
    cases htext
    exact absurd hc (by decide)
  · rw [h]

theorem read_layout (h : v.Everywhere IsReadable) (hv : v.NestsWithin depth.limit) :
    read depth (layout 0 v ['\n']) = .ok v := by
  have hrun : run depth .value [] (layout 0 v ['\n']) = .ok v := by
    rw [readsLayout_of_readable h hv 0 [] ['\n'] (by simp) (by rintro c ⟨rfl⟩; decide)]
    exact run_of_finished rfl
  exact read_of_run (startsValue_layout 0 h.here.noFloat) hrun

end CanonicalSchema.Json
