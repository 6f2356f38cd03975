import CanonicalSchema.Proofs.Json.LayoutLines
import CanonicalSchema.Proofs.Json.StoppedReading

/-!
Texts that are not malformed and yet not read: a laid-out value that fails to be readable only in
that an integer is too long, a numeral of too many digits, and too many opening brackets.
-/

namespace CanonicalSchema.Json

open Digits (isDigit)

variable {depth : Depth} {levels : Nat} {frames : List Frame} {rest cs : List Char} {v : Json}

/-! Integers -/

theorem scanNumber_writeInt_long {n : Int} (hn : ¬ IsShortInteger n) (hr : EndsNumber rest) :
    scanNumber (Digits.writeInt n ++ rest) =
      .error (.longInteger (Digits.write n.natAbs).length) := by
  obtain ⟨d, ds, hw, -⟩ := Digits.exists_write_cons n.natAbs
  have hne : Digits.write n.natAbs ≠ [] := by simp [hw]
  unfold IsShortInteger at hn
  unfold scanNumber
  simp only [scanMinus_writeInt, scanWhole_write _ hr.endsDigits, scanFraction_of_ends hr,
    scanExponent_of_ends hr, if_neg hne, if_pos (Nat.lt_of_not_le hn), and_self, if_true]

theorem scanValue_of_scanNumber_error {stop : Stop} (hs : scanWord? cs = none)
    (hq : ∀ c ∈ cs.head?, c ≠ '"' ∧ c ≠ '[' ∧ c ≠ '\x7b') (h : scanNumber cs = .error stop) :
    scanValue cs = .error stop := by
  unfold scanValue
  split
  · exact absurd rfl (hq _ rfl).1
  · exact absurd rfl (hq _ rfl).2.1
  · exact absurd rfl (hq _ rfl).2.2
  · rw [hs, h]
    rfl

theorem run_value_error {stop : Stop} (hs : StartsValue cs) (h : scanValue cs = .error stop) :
    run depth .value frames cs = .error stop := by
  rw [run_eq, hs.dropSpace]
  simp only [step, openValue, h]
  rfl

theorem head_writeInt (n : Int) (rest : List Char) :
    ∀ c ∈ (Digits.writeInt n ++ rest).head?, c = '-' ∨ isDigit c = true := by
  obtain ⟨d, ds, hw, hd⟩ := Digits.exists_write_cons n.natAbs
  unfold Digits.writeInt
  rw [hw]
  split
  · rintro c ⟨rfl⟩
    exact Or.inl rfl
  · rintro c ⟨rfl⟩
    exact Or.inr hd

theorem scanValue_writeInt_long {n : Int} (hn : ¬ IsShortInteger n) (hr : EndsNumber rest) :
    scanValue (Digits.writeInt n ++ rest) =
      .error (.longInteger (Digits.write n.natAbs).length) := by
  apply scanValue_of_scanNumber_error (scanWord?_writeInt n rest) _ (scanNumber_writeInt_long hn hr)
  intro c hc
  have hne : ∀ d, d ≠ '-' → isDigit d = false → c ≠ d := by
    rintro d hminus hdigit rfl
    rcases head_writeInt n rest c hc with h | h
    · exact hminus h
    · rw [hdigit] at h
      contradiction
  exact ⟨hne _ (by decide) rfl, hne _ (by decide) rfl, hne _ (by decide) rfl⟩

/-! Containers -/

/-- A value of so many levels at which the reader stops for an integer in it, wherever it is laid
out and fits on the stack. -/
def StopsLayout (depth : Depth) (levels : Nat) (v : Json) : Prop :=
  ∃ digits, ∀ (level : Nat) (frames : List Frame) (rest : List Char),
    frames.length + levels ≤ depth.limit → EndsNumber rest →
      run depth .value frames (layout level v rest) = .error (.longInteger digits)

/-- A value at which the reader stops or that it reads. -/
def EndsLayout (depth : Depth) (levels : Nat) (v : Json) : Prop :=
  ReadsLayout depth levels v ∨ StopsLayout depth levels v

/-- The run stops within the first value, or it reads that value and stops later. -/
theorem stops_first_or_later {α : Type} (f : α → Json) {a : α} {as : List α}
    (h : ∀ b ∈ a :: as, EndsLayout depth levels (f b))
    (hs : ∃ b ∈ a :: as, StopsLayout depth levels (f b)) :
    StopsLayout depth levels (f a) ∨
      ReadsLayout depth levels (f a) ∧ ∃ b ∈ as, StopsLayout depth levels (f b) := by
  by_cases ha : StopsLayout depth levels (f a)
  · exact Or.inl ha
  · obtain ⟨b, hb, hstop⟩ := hs
    have hb : b ∈ as := (List.mem_cons.1 hb).resolve_left fun heq => ha (by rwa [heq] at hstop)
    exact Or.inr ⟨(h a List.mem_cons_self).resolve_right ha, b, hb, hstop⟩

theorem stops_layoutItems {vs : List Json} (h : ∀ w ∈ vs, EndsLayout depth levels w)
    (hs : ∃ w ∈ vs, StopsLayout depth levels w) :
    ∃ digits, ∀ (level level' : Nat) (frames : List Frame) (rest : List Char) (v : Json)
      (items : List Json), frames.length + 1 + levels ≤ depth.limit →
        run depth (.endOf v) (.array items :: frames)
          (layoutItems level vs (newline level' (']' :: rest))) = .error (.longInteger digits) := by
  induction vs with
  | nil =>
    obtain ⟨w, hw, -⟩ := hs
    exact absurd hw List.not_mem_nil
  | cons w vs ih =>
    have hnext : ∀ (level : Nat) (frames : List Frame) (rest : List Char) (v : Json)
        (items : List Json), run depth (.endOf v) (.array items :: frames)
          (layoutItems level (w :: vs) rest) =
        run depth .value (.array (v :: items) :: frames)
          (layout level w (layoutItems level vs rest)) := by
      intro level frames rest v items
      rw [layoutItems, run_of_step .value (.array (v :: items) :: frames) rfl, run_newline]
    rcases stops_first_or_later (fun u => u) h hs with ⟨digits, hstop⟩ | ⟨hread, hlater⟩
    · refine ⟨digits, fun level level' frames rest v items hd => ?_⟩
      rw [hnext]
      exact hstop _ (.array (v :: items) :: frames) _ hd (endsNumber_layoutItems level level' vs)
    · obtain ⟨digits, hstop⟩ := ih (fun u hu => h u (List.mem_cons_of_mem w hu)) hlater
      refine ⟨digits, fun level level' frames rest v items hd => ?_⟩
      rw [hnext, hread _ (.array (v :: items) :: frames) _ hd
        (endsNumber_layoutItems level level' vs)]
      exact hstop level level' frames rest w (v :: items) hd

theorem stops_layoutMembers {ms : List (Text × Json)}
    (h : ∀ m ∈ ms, EndsLayout depth levels m.2) (hl : ∀ m ∈ ms, m.1.OfCharacters)
    (hs : ∃ m ∈ ms, StopsLayout depth levels m.2) :
    ∃ digits, ∀ (level level' : Nat) (frames : List Frame) (rest : List Char) (v : Json)
      (members : Entries Text Json) (k : Text), frames.length + 1 + levels ≤ depth.limit →
        run depth (.endOf v) (.object members k :: frames)
          (layoutMembers level ms (newline level' ('\x7d' :: rest))) =
        .error (.longInteger digits) := by
  induction ms with
  | nil =>
    obtain ⟨m, hm, -⟩ := hs
    exact absurd hm List.not_mem_nil
  | cons m ms ih =>
    obtain ⟨k', w⟩ := m
    rw [List.forall_mem_cons] at hl
    have hnext : ∀ (level : Nat) (frames : List Frame) (rest : List Char) (v : Json)
        (members : Entries Text Json) (k : Text), run depth (.endOf v) (.object members k :: frames)
          (layoutMembers level ((k', w) :: ms) rest) =
        run depth .value (.object (members.put k v) k' :: frames)
          (layout level w (layoutMembers level ms rest)) := by
      intro level frames rest v members k
      rw [layoutMembers, run_of_step (.member (members.put k v)) frames rfl, run_newline,
        run_label hl.1]
    rcases stops_first_or_later Prod.snd h hs with ⟨digits, hstop⟩ | ⟨hread, hlater⟩
    · refine ⟨digits, fun level level' frames rest v members k hd => ?_⟩
      rw [hnext]
      exact hstop _ (.object _ k' :: frames) _ hd (endsNumber_layoutMembers level level' ms)
    · obtain ⟨digits, hstop⟩ := ih (fun u hu => h u (List.mem_cons_of_mem _ hu)) hl.2 hlater
      refine ⟨digits, fun level level' frames rest v members k hd => ?_⟩
      rw [hnext, hread _ (.object _ k' :: frames) _ hd (endsNumber_layoutMembers level level' ms)]
      exact hstop level level' frames rest w (members.put k v) k' hd

theorem stopsLayout_arr {items : List Json} (h : ∀ v ∈ items, EndsLayout depth levels v)
    (hf : ∀ v ∈ items, ¬ v.IsFloat) (hs : ∃ v ∈ items, StopsLayout depth levels v) :
    StopsLayout depth (levels + 1) (.arr items) := by
  cases items with
  | nil =>
    obtain ⟨v, hv, -⟩ := hs
    exact absurd hv List.not_mem_nil
  | cons v vs =>
    have hnext : ∀ (level : Nat) (frames : List Frame) (rest : List Char),
        frames.length + (levels + 1) ≤ depth.limit →
          run depth .value frames (layout level (.arr (v :: vs)) rest) =
            run depth .value (.array [] :: frames) (layout (level + 1) v
              (layoutItems (level + 1) vs (newline level (']' :: rest)))) := by
      intro level frames rest hd
      rw [layout, run_open .array (by omega) rfl (startsValue_cons rfl), Container.first,
        run_newline, run_elementOrEnd (startsValue_layout _ (hf v List.mem_cons_self))]
    rcases stops_first_or_later (fun u => u) h hs with ⟨digits, hstop⟩ | ⟨hread, hlater⟩
    · refine ⟨digits, fun level frames rest hd _ => ?_⟩
      rw [hnext level frames rest hd]
      refine hstop _ (.array [] :: frames) _ ?_ (endsNumber_layoutItems _ _ vs)
      rw [List.length_cons]
      omega
    · obtain ⟨digits, hstop⟩ :=
        stops_layoutItems (fun u hu => h u (List.mem_cons_of_mem v hu)) hlater
      refine ⟨digits, fun level frames rest hd _ => ?_⟩
      have hd' : frames.length + 1 + levels ≤ depth.limit := by omega
      rw [hnext level frames rest hd, hread _ (.array [] :: frames) _ hd'
        (endsNumber_layoutItems _ _ vs)]
      exact hstop _ _ frames rest v [] hd'

theorem stopsLayout_obj {members : List (Text × Json)}
    (h : ∀ m ∈ members, EndsLayout depth levels m.2) (hl : ∀ m ∈ members, m.1.OfCharacters)
    (hs : ∃ m ∈ members, StopsLayout depth levels m.2) :
    StopsLayout depth (levels + 1) (.obj members) := by
  cases members with
  | nil =>
    obtain ⟨m, hm, -⟩ := hs
    exact absurd hm List.not_mem_nil
  | cons m ms =>
    obtain ⟨k, v⟩ := m
    rw [List.forall_mem_cons] at hl
    have hnext : ∀ (level : Nat) (frames : List Frame) (rest : List Char),
        frames.length + (levels + 1) ≤ depth.limit →
          run depth .value frames (layout level (.obj ((k, v) :: ms)) rest) =
            run depth .value (.object [] k :: frames) (layout (level + 1) v
              (layoutMembers (level + 1) ms (newline level ('\x7d' :: rest)))) := by
      intro level frames rest hd
      rw [layout, run_open .object (by omega) rfl (startsValue_cons rfl), Container.first,
        run_newline, run_memberOrEnd, run_label hl.1]
    rcases stops_first_or_later Prod.snd h hs with ⟨digits, hstop⟩ | ⟨hread, hlater⟩
    · refine ⟨digits, fun level frames rest hd _ => ?_⟩
      rw [hnext level frames rest hd]
      refine hstop _ (.object [] k :: frames) _ ?_ (endsNumber_layoutMembers _ _ ms)
      rw [List.length_cons]
      omega
    · obtain ⟨digits, hstop⟩ :=
        stops_layoutMembers (fun u hu => h u (List.mem_cons_of_mem _ hu)) hl.2 hlater
      refine ⟨digits, fun level frames rest hd _ => ?_⟩
      have hd' : frames.length + 1 + levels ≤ depth.limit := by omega
      rw [hnext level frames rest hd, hread _ (.object [] k :: frames) _ hd'
        (endsNumber_layoutMembers _ _ ms)]
      exact hstop _ _ frames rest v [] k hd'

/-- The only thing that can keep a value that is spelt out from being read is an integer. -/
theorem readable_or_stopsLayout (depth : Depth) (h : v.Everywhere IsSpelt)
    (hv : v.NestsWithin levels) : v.Everywhere IsReadable ∨ StopsLayout depth levels v := by
  induction h generalizing levels with
  | @node j here below ih =>
    have hleaf (hint : ∀ n, j = .int n → IsShortInteger n)
        (hparts : ∀ w ∈ j.parts, w.Everywhere IsReadable) : j.Everywhere IsReadable :=
      .node ⟨here, hint⟩ hparts
    have hends {n : Nat} (hn : ∀ w ∈ j.parts, w.NestsWithin n) :
        ∀ w ∈ j.parts, EndsLayout depth n w := fun w hw =>
      (ih w hw (hn w hw)).imp_left fun hread => readsLayout_of_readable hread (hn w hw)
    have hstops {n : Nat} (hn : ∀ w ∈ j.parts, w.NestsWithin n)
        (hnot : ¬ ∀ w ∈ j.parts, w.Everywhere IsReadable) :
        ∃ w ∈ j.parts, StopsLayout depth n w := by
      push Not at hnot
      obtain ⟨w, hw, hread⟩ := hnot
      exact ⟨w, hw, (ih w hw (hn w hw)).resolve_left hread⟩
    cases j with
    | null | bool _ | float _ | str _ => exact Or.inl (hleaf nofun nofun)
    | int n =>
      by_cases hn : IsShortInteger n
      · exact Or.inl (hleaf (fun m hm => by cases hm; exact hn) nofun)
      · refine Or.inr ⟨(Digits.write n.natAbs).length, fun level frames rest _ hr => ?_⟩
        exact run_value_error (startsValue_writeInt n) (scanValue_writeInt_long hn hr)
    | arr items =>
      obtain ⟨n, rfl, hn⟩ := hv.parts trivial
      by_cases hall : ∀ w ∈ items, w.Everywhere IsReadable
      · exact Or.inl (hleaf nofun hall)
      · exact Or.inr (stopsLayout_arr (hends hn) (fun w hw => (below w hw).here.noFloat)
          (hstops hn hall))
    | obj members =>
      obtain ⟨n, rfl, hn⟩ := hv.parts trivial
      by_cases hall : ∀ w ∈ (obj members).parts, w.Everywhere IsReadable
      · exact Or.inl (hleaf nofun hall)
      · have hl : ∀ m ∈ members, m.1.OfCharacters :=
          fun m hm => here.texts _ (List.mem_map_of_mem hm)
        refine Or.inr (stopsLayout_obj (List.forall_mem_map.1 (hends hn)) hl ?_)
        obtain ⟨w, hw, hstop⟩ := hstops hn hall
        obtain ⟨m, hm, rfl⟩ := List.mem_map.1 hw
        exact ⟨m, hm, hstop⟩

/-- A laid-out value is read exactly if its integers are short; if one is not, it stops the
reader. -/
theorem ofBytes_layout_or_stops (h : v.Everywhere IsSpelt) (hv : v.NestsWithin depth.limit) :
    v.Everywhere IsReadable ∨ ∃ digits,
      ofBytes depth (Utf8.encode (String.ofList (layout 0 v ['\n']))) =
        .error (.content (.longInteger digits)) := by
  rcases readable_or_stopsLayout depth h hv with hread | ⟨digits, hstop⟩
  · exact Or.inl hread
  refine Or.inr ⟨digits, ?_⟩
  have hrun := hstop 0 [] ['\n'] (by simp) (by rintro c ⟨rfl⟩; decide)
  rw [ofBytes_of_spelt h, read_of_run (startsValue_layout 0 h.here.noFloat) hrun]
  rfl

/-! Numerals -/

/-- The text is a numeral of too many digits, and nothing else. -/
structure LongNumeral (text : List Char) : Prop where
  areDigits : ∀ c ∈ text, isDigit c = true
  long : integerLimit < text.length
  noZero : text.head? ≠ some '0'

variable {text : List Char}

theorem LongNumeral.exists_cons (h : LongNumeral text) :
    ∃ d ds, text = d :: ds ∧ isDigit d = true ∧ d ≠ '0' := by
  obtain ⟨hdigits, hlong, hz⟩ := h
  cases text with
  | nil => exact absurd hlong (by simp)
  | cons d ds => exact ⟨d, ds, rfl, hdigits d List.mem_cons_self, by simpa using hz⟩

theorem scanNumber_of_longNumeral (h : LongNumeral text) :
    scanNumber text = .error (.longInteger text.length) := by
  obtain ⟨d, ds, rfl, hd, hz⟩ := h.exists_cons
  obtain ⟨ht, hr⟩ := span_digits h.areDigits endsDigits_nil
  rw [List.append_nil] at ht hr
  have hminus : scanMinus (d :: ds) = (false, d :: ds) := by
    unfold scanMinus
    split
    · next heq => exact absurd (List.cons.inj heq).1 (Digits.ne_of_isDigit hd rfl)
    · rfl
  have hwhole : scanWhole (d :: ds) = (d :: ds, []) := by
    unfold scanWhole
    split
    · next heq => exact absurd (List.cons.inj heq).1 hz
    · rw [ht, hr]
  unfold scanNumber
  simp only [hminus, hwhole, scanFraction, scanExponent, reduceCtorEq, if_false, and_self, if_true,
    if_pos h.long]

theorem read_of_longNumeral (h : LongNumeral text) :
    read depth text = .error (.longInteger text.length) := by
  have hnumber := scanNumber_of_longNumeral h
  obtain ⟨d, ds, rfl, hd, -⟩ := h.exists_cons
  have hne : ∀ c, isDigit c = false → d ≠ c := fun _ hc => Digits.ne_of_isDigit hd hc
  have hstart : StartsValue (d :: ds) := startsValue_cons (by
    simp [isStart, isSpace, hne ' ' rfl, hne '\t' rfl, hne '\n' rfl, hne '\r' rfl, hne ']' rfl,
      hne '\ufeff' rfl])
  have hword : scanWord? (d :: ds) = none := by
    simp [scanWord?, words, afterWord?, (hne 'n' rfl).symm, (hne 't' rfl).symm, (hne 'f' rfl).symm,
      (hne 'N' rfl).symm, (hne 'I' rfl).symm, (hne '-' rfl).symm]
  have hvalue : scanValue (d :: ds) = .error (.longInteger (d :: ds).length) := by
    apply scanValue_of_scanNumber_error hword _ hnumber
    rintro c ⟨rfl⟩
    exact ⟨hne _ rfl, hne _ rfl, hne _ rfl⟩
  rw [read_of_run hstart (run_value_error hstart hvalue)]
  rfl

/-! Brackets -/

theorem run_brackets {n : Nat} (hroom : frames.length < depth.limit)
    (hn : depth.limit ≤ frames.length + n) :
    run depth .elementOrEnd frames (List.replicate n '[') = .error (.tooDeep .array) := by
  induction n generalizing frames with
  | zero => omega
  | succ n ih =>
    have hstart : StartsValue ('[' :: List.replicate n '[') := startsValue_cons rfl
    have hvalue : scanValue ('[' :: List.replicate n '[') =
        .ok (.container .array, List.replicate n '[') := rfl
    rw [List.replicate_succ, run_elementOrEnd hstart]
    by_cases h : frames.length + 1 < depth.limit
    · have hroom : (Frame.array [] :: frames).length < depth.limit := h
      rw [run_open .array hroom hvalue hstart]
      refine ih hroom ?_
      rw [List.length_cons]
      omega
    · have hstep : step depth .value (.array [] :: frames) ('[' :: List.replicate n '[') =
          .error (.tooDeep .array) := by
        simp only [step, openValue, hvalue]
        exact if_neg h
      rw [run_eq, hstart.dropSpace, hstep]
      rfl

theorem read_of_brackets {n : Nat} (h : depth.limit < n) :
    read depth (List.replicate n '[') = .error (.tooDeep .array) := by
  obtain ⟨m, rfl⟩ := Nat.exists_eq_succ_of_ne_zero (Nat.ne_zero_of_lt h)
  have hroom : ([] : List Frame).length < depth.limit := depth.limit_pos
  have hstart : StartsValue ('[' :: List.replicate m '[') := startsValue_cons rfl
  have hrun : run depth .value [] ('[' :: List.replicate m '[') = .error (.tooDeep .array) := by
    rw [run_open .array hroom rfl hstart]
    refine run_brackets hroom ?_
    rw [List.length_nil, Nat.zero_add]
    exact Nat.le_of_lt_succ h
  rw [List.replicate_succ, read_of_run hstart hrun]
  rfl

/-! Files -/

theorem ofBytes_of_longNumeral (h : LongNumeral text) :
    ofBytes depth (Utf8.encode (String.ofList text)) =
      .error (.content (.longInteger text.length)) := by
  have hreturn : '\r' ∉ text := fun hmem => absurd (h.areDigits _ hmem) (by decide)
  rw [ofBytes_encode hreturn, read_of_longNumeral h]
  rfl

theorem ofBytes_of_brackets {n : Nat} (h : depth.limit < n) :
    ofBytes depth (Utf8.encode (String.ofList (List.replicate n '['))) =
      .error (.content (.tooDeep .array)) := by
  have hreturn : '\r' ∉ List.replicate n '[' := by
    intro hmem
    exact absurd (List.eq_of_mem_replicate hmem) (by decide)
  rw [ofBytes_encode hreturn, read_of_brackets h]
  rfl

end CanonicalSchema.Json
