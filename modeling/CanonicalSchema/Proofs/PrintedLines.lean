import CanonicalSchema.Proofs.Except
import CanonicalSchema.Proofs.FieldName
import CanonicalSchema.Proofs.Printing
import Mathlib.Data.List.TakeWhile

/-!
What stands on the lines of an output, whatever is taken for the end of a line beside a line feed.
Of a line of the report all is printed but escape sequences, so an output has more lines than the
report only where one of these holds an end of a line.
-/

namespace CanonicalSchema

namespace Report

/-- A character of ASCII that is printed as itself. -/
def IsVisible (c : Char) : Prop := 32 ≤ c.toNat ∧ c.toNat < 127

instance (c : Char) : Decidable (IsVisible c) := inferInstanceAs (Decidable (_ ∧ _))

/-- What is taken for the end of a line: a line feed and perhaps other characters, but none that are
visible or start an escape sequence. -/
structure Breaks where
  isBreak : Char → Bool
  lineFeed : isBreak '\n' = true
  escape : isBreak '\x1b' = false
  visible : ∀ c, IsVisible c → isBreak c = false

namespace Breaks

def ofList (cs : List Char) (hf : cs.contains '\n' = true) (he : cs.contains '\x1b' = false)
    (hv : cs.all (fun c => !decide (IsVisible c)) = true) : Breaks where
  isBreak c := cs.contains c
  lineFeed := hf
  escape := he
  visible := by
    intro c hc
    rw [← Bool.not_eq_true, List.contains_iff_mem]
    intro hmem
    have hhidden := List.all_eq_true.1 hv c hmem
    rw [decide_eq_true hc] at hhidden
    contradiction

def lineFeeds : Breaks := ofList ['\n'] (by decide) (by decide) (by decide)

def unicode : Breaks :=
  ofList ['\n', '\r', '\x0b', '\x0c', '\x1c', '\x1d', '\x1e', '\u0085', '\u2028', '\u2029']
    (by decide) (by decide) (by decide)

def isBreakAt (b : Breaks) : CodePoint → Bool
  | .char c => b.isBreak c
  | .surrogate _ => false

end Breaks

/-! Escape sequences -/

/-- Never a part of an escape sequence. -/
def isFixed (p : CodePoint) : Bool :=
  p != .char '\x1b' && p != .char '[' && !isParameter p && !isLetter p

theorem isFixed_iff {p : CodePoint} :
    isFixed p = true ↔ p ≠ .char '\x1b' ∧ p ≠ .char '[' ∧ isParameter p = false ∧
      isLetter p = false := by
  simp [isFixed, and_assoc]

theorem isVisible_of_isParameter {c : Char} (h : isParameter (.char c) = true) : IsVisible c := by
  simp only [isParameter, Digits.isDigit, Bool.or_eq_true, beq_iff_eq, Bool.and_eq_true,
    decide_eq_true_eq, Char.le_def, UInt32.le_iff_toNat_le] at h
  rcases h with (rfl | rfl) | h
  · decide
  · decide
  · exact ⟨Nat.le_trans (by decide) h.1, Nat.lt_of_le_of_lt h.2 (by decide)⟩

theorem isVisible_of_isLetter {c : Char} (h : isLetter (.char c) = true) : IsVisible c := by
  unfold isLetter Char.isAlpha Char.isUpper Char.isLower at h
  simp only [Bool.or_eq_true, Bool.and_eq_true, decide_eq_true_eq, UInt32.le_iff_toNat_le] at h
  rcases h with h | h
  · exact ⟨Nat.le_trans (by decide) h.1, Nat.lt_of_le_of_lt h.2 (by decide)⟩
  · exact ⟨Nat.le_trans (by decide) h.1, Nat.lt_of_le_of_lt h.2 (by decide)⟩

theorem Breaks.isFixed_of_isBreakAt {b : Breaks} {p : CodePoint} (h : b.isBreakAt p = true) :
    isFixed p = true := by
  cases p with
  | surrogate offset => contradiction
  | char c =>
    have hhidden : ¬ IsVisible c := by
      intro hv
      rw [isBreakAt, b.visible c hv] at h
      contradiction
    rw [isFixed_iff]
    refine ⟨?_, ?_, ?_, ?_⟩
    · rintro ⟨⟩
      rw [isBreakAt, b.escape] at h
      contradiction
    · rintro ⟨⟩
      exact hhidden (by decide)
    · rw [← Bool.not_eq_true]
      exact fun hp => hhidden (isVisible_of_isParameter hp)
    · rw [← Bool.not_eq_true]
      exact fun hl => hhidden (isVisible_of_isLetter hl)

theorem afterSequence?_eq_some_iff {ps rest : List CodePoint} :
    afterSequence? ps = some rest ↔ ∃ params p, ps = params ++ p :: rest ∧
      (∀ q ∈ params, isParameter q = true) ∧ isParameter p = false ∧ isLetter p = true := by
  unfold afterSequence?
  constructor
  · intro h
    split at h
    · next p after hp =>
      split at h
      · next hl =>
        cases h
        refine ⟨ps.takeWhile isParameter, p, ?_, fun q hq => List.mem_takeWhile_imp hq, ?_, hl⟩
        · rw [← hp, List.takeWhile_append_dropWhile]
        · have hhead := List.head?_dropWhile_not isParameter ps
          rw [hp] at hhead
          simpa using hhead
      · contradiction
    · contradiction
  · rintro ⟨params, p, rfl, hparams, hp, hl⟩
    rw [List.dropWhile_append_of_pos hparams, List.dropWhile_cons_of_neg (by simp [hp])]
    simp only [hl, if_true]

theorem any_plain {q : CodePoint → Bool} (hq : ∀ p, q p = true → isFixed p = true)
    (ps : List CodePoint) : (plain ps).any q = ps.any q := by
  have hout {p : CodePoint} (hp : isFixed p = false) : q p = false := by
    rw [← Bool.not_eq_true] at hp ⊢
    exact fun h => hp (hq p h)
  fun_induction plain ps with
  | case1 => rfl
  | case2 rest after h ih =>
    obtain ⟨params, p, rfl, hparams, -, hp⟩ := afterSequence?_eq_some_iff.1 h
    have hnone : params.any q = false := by
      rw [List.any_eq_false]
      intro d hd
      rw [hout (by simp [isFixed, hparams d hd])]
      exact Bool.noConfusion
    rw [ih, List.any_cons, List.any_cons, List.any_append, List.any_cons, hnone, hout (by decide),
      hout (by decide), hout (by simp [isFixed, hp])]
    rfl
  | case3 rest h ih => rw [List.any_cons, ih, ← List.any_cons]
  | case4 p rest h ih => rw [List.any_cons, ih, ← List.any_cons]

theorem afterSequence?_append_cons {p : CodePoint} (hp : isFixed p = true)
    (ps qs : List CodePoint) :
    afterSequence? (ps ++ p :: qs) = (afterSequence? ps).map (· ++ p :: qs) := by
  obtain ⟨-, -, hparameter, hletter⟩ := isFixed_iff.1 hp
  unfold afterSequence?
  rw [List.dropWhile_append]
  cases ps.dropWhile isParameter with
  | nil => simp [hparameter, hletter]
  | cons l rest => by_cases hl : isLetter l = true <;> simp [hl]

theorem plain_append_cons {p : CodePoint} (hp : isFixed p = true) (ps qs : List CodePoint) :
    plain (ps ++ p :: qs) = plain ps ++ p :: plain qs := by
  obtain ⟨hescape, hbracket, -, -⟩ := isFixed_iff.1 hp
  fun_induction plain ps with
  | case1 =>
    rw [List.nil_append, plain]
    · rfl
    · rintro rest rfl
      exact absurd rfl hescape
  | case2 rest after h ih =>
    have hafter : afterSequence? (rest ++ p :: qs) = some (after ++ p :: qs) := by
      rw [afterSequence?_append_cons hp, h, Option.map_some]
    rw [List.cons_append, List.cons_append, plain]
    split
    · next after' h' =>
      rw [hafter] at h'
      rw [← Option.some.inj h', ih]
    · next h' =>
      rw [hafter] at h'
      contradiction
  | case3 rest h ih =>
    have hnone : afterSequence? (rest ++ p :: qs) = none := by
      rw [afterSequence?_append_cons hp, h, Option.map_none]
    rw [List.cons_append, List.cons_append, plain]
    split
    · next after' h' =>
      rw [hnone] at h'
      contradiction
    · exact congrArg _ ih
  | case4 d rest h ih =>
    rw [List.cons_append, plain, ih]
    · rfl
    · rintro rest' rfl hrest
      cases rest with
      | nil => exact hbracket (List.cons.inj hrest).1
      | cons d rest =>
        obtain ⟨rfl, -⟩ := List.cons.inj hrest
        exact h rest rfl rfl

theorem plain_append {ps : List CodePoint} (h : .char '\x1b' ∉ ps) (qs : List CodePoint) :
    plain (ps ++ qs) = ps ++ plain qs := by
  induction ps with
  | nil => rfl
  | cons p ps ih =>
    rw [List.mem_cons, not_or] at h
    rw [List.cons_append, plain]
    · rw [ih h.2]
      rfl
    · rintro rest rfl
      exact absurd rfl h.1

theorem plain_eq_self {ps : List CodePoint} (h : .char '\x1b' ∉ ps) : plain ps = ps := by
  have hnil := plain_append h []
  rwa [plain, List.append_nil] at hnil

/-! Line ends -/

/-- A carriage return and the line feed after it end a line together, as the line feed does. -/
def endLines : List Char → List Char
  | [] => []
  | '\r' :: '\n' :: rest => '\n' :: endLines rest
  | c :: rest => c :: endLines rest

theorem endLines_append {cs rest : List Char}
    (h : cs.getLast? = some '\r' → rest.head? ≠ some '\n') :
    endLines (cs ++ rest) = endLines cs ++ endLines rest := by
  fun_induction endLines cs with
  | case1 => rfl
  | case2 cs ih =>
    rw [List.cons_append, List.cons_append, endLines, ih]
    · rfl
    · intro hlast
      apply h
      rw [List.getLast?_cons_cons, List.getLast?_cons, hlast]
      rfl
  | case3 c cs hc ih =>
    rw [List.cons_append, endLines, ih]
    · rfl
    · intro hlast
      apply h
      rw [List.getLast?_cons, hlast]
      rfl
    · rintro rest' rfl hrest
      cases cs with
      | nil => exact h rfl (congrArg List.head? hrest)
      | cons d cs =>
        obtain ⟨rfl, -⟩ := List.cons.inj hrest
        exact hc cs rfl rfl

theorem endLines_eq_self {cs : List Char} (h : '\r' ∈ cs → '\n' ∉ cs) : endLines cs = cs := by
  fun_induction endLines cs with
  | case1 => rfl
  | case2 cs ih => simp at h
  | case3 c cs hc ih =>
    rw [ih]
    intro hr hn
    exact h (List.mem_cons_of_mem c hr) (List.mem_cons_of_mem c hn)

theorem any_endLines (b : Breaks) (cs : List Char) :
    (endLines cs).any b.isBreak = cs.any b.isBreak := by
  fun_induction endLines cs with
  | case1 => rfl
  | case2 cs ih => simp [b.lineFeed]
  | case3 c cs hc ih => rw [List.any_cons, ih, ← List.any_cons]

/-! What is printed of a line -/

def shownChars (t : Text) : List Char := (plain t.points).filterMap CodePoint.char?

/-- What stands in an output where a text without surrogates is printed. -/
def shown (t : Text) : String := .ofList (shownChars t)

/-- A line without a carriage return at its end, which would end it together with a line feed. -/
def IsEnded (line : Text) : Prop := (shownChars line).getLast? ≠ some '\r'

theorem filterMap_char? (cs : List Char) :
    (cs.map CodePoint.char).filterMap CodePoint.char? = cs := by
  rw [List.filterMap_map]
  exact List.filterMap_some

theorem printed_eq {line : Text} (h : line.OfCharacters) :
    printed line = .ofString (.ofList (shownChars line ++ ['\n'])) := by
  have hplain : (⟨plain line.points⟩ : Text).OfCharacters := by
    rw [Text.ofCharacters_iff] at h ⊢
    exact fun p hp => h p (plain_subset _ hp)
  obtain ⟨cs, hcs⟩ := hplain
  have hpoints : plain line.points = cs.map .char := congrArg Text.points hcs
  unfold printed shownChars
  rw [hpoints, filterMap_char?]
  calc (⟨cs.map .char⟩ : Text) ++ Text.ofString "\n" = .ofChars (cs ++ ['\n']) :=
        congrArg Text.mk List.map_append.symm
    _ = .ofString (.ofList (cs ++ ['\n'])) := by rw [Text.ofString, String.toList_ofList]

theorem ofCharacters_of_printed {line : Text} {s : String}
    (h : (printed line).encodable = .ok s) : line.OfCharacters := by
  have hprinted : (printed line).OfCharacters := by
    unfold Text.encodable at h
    split at h
    · next words hw =>
      rw [Text.string?_eq_some_iff.1 hw]
      exact Text.ofCharacters_ofString words
    · cases h
  have hplain := (Text.ofCharacters_append_iff.1 hprinted).1
  have hfixed : ∀ p : CodePoint, p.isSurrogate = true → isFixed p = true := by
    rintro (c | offset) hp
    · cases hp
    · rfl
  -- A surrogate is never a part of an escape sequence.
  have hany := any_plain hfixed line.points
  rw [Text.ofCharacters_iff] at hplain ⊢
  have hnone : line.points.any CodePoint.isSurrogate = false := by
    rw [← hany, List.any_eq_false]
    intro p hp
    obtain ⟨c, rfl⟩ := hplain p hp
    exact Bool.noConfusion
  rw [List.any_eq_false] at hnone
  intro p hp
  cases p with
  | char c => exact ⟨c, rfl⟩
  | surrogate offset => exact absurd rfl (hnone _ hp)

def body (lines : List Text) : List Char := lines.flatMap fun line => shownChars line ++ ['\n']

theorem stdout_eq {r : Report} (hc : ∀ line ∈ r.out, line.OfCharacters) :
    r.stdout = .ok (.ofList (body r.out)) := by
  have hmap : r.out.mapM (fun line => (printed line).encodable) =
      .ok (r.out.map fun line => String.ofList (shownChars line ++ ['\n'])) := by
    rw [Except.mapM_eq_ok_iff, List.forall₂_map_right_iff, List.forall₂_same]
    intro line hl
    rw [printed_eq (hc line hl), Text.encodable_ofString]
  unfold stdout
  rw [hmap]
  refine congrArg Except.ok (String.toList_inj.1 ?_)
  simp only [body, String.toList_join, List.flatMap_map, String.toList_ofList]

theorem output_eq {r : Report} (hc : ∀ line ∈ r.out, line.OfCharacters) :
    r.output = .ok ⟨r.exitCode, .ofList (body r.out), r.stderr⟩ := by
  unfold output
  rw [stdout_eq hc]
  rfl

theorem output_isOk_iff {r : Report} :
    (∃ out, r.output = .ok out) ↔ ∀ line ∈ r.out, line.OfCharacters := by
  constructor
  · rintro ⟨out, hout⟩ line hl
    obtain ⟨_, hstdout, -⟩ := Except.map_eq_ok_iff.1 hout
    obtain ⟨ss, hss, -⟩ := Except.map_eq_ok_iff.1 hstdout
    obtain ⟨s, hs⟩ := Except.all_ok_of_mapM hss line hl
    exact ofCharacters_of_printed hs
  · exact fun h => ⟨_, output_eq h⟩

theorem any_filterMap_char? (b : Breaks) (ps : List CodePoint) :
    (ps.filterMap CodePoint.char?).any b.isBreak = ps.any b.isBreakAt := by
  induction ps with
  | nil => rfl
  | cons p ps ih =>
    cases p with
    | char c => exact congrArg (b.isBreak c || ·) ih
    | surrogate offset => exact ih

theorem any_shownChars (b : Breaks) (line : Text) :
    (shownChars line).any b.isBreak = line.points.any b.isBreakAt := by
  unfold shownChars
  rw [any_filterMap_char?, any_plain fun _ => Breaks.isFixed_of_isBreakAt]

/-! The lines of an output -/

/-- The lines of a text, each of which has its end; a carriage return and the line feed after it
end a line together. -/
def splitLines (b : Breaks) (cs : List Char) : List (List Char) :=
  ((endLines cs).splitOnP b.isBreak).dropLast

def linesOf (b : Breaks) (out : String) : List String :=
  (splitLines b out.toList).map String.ofList

theorem splitLines_append (b : Breaks) {l : List Char} (h : l.getLast? ≠ some '\r')
    (rest : List Char) :
    splitLines b (l ++ '\n' :: rest) =
      (endLines l).splitOnP b.isBreak ++ splitLines b rest := by
  have hrest : endLines ('\n' :: rest) = '\n' :: endLines rest := by
    rw [endLines]
    rintro rest' ⟨⟩
  unfold splitLines
  rw [endLines_append fun hr => absurd hr h, hrest,
    List.splitOnP_append_cons _ _ b.lineFeed,
    List.dropLast_append_of_ne_nil (List.splitOnP_ne_nil _ _)]

theorem length_splitOnP (b : Breaks) (cs : List Char) :
    (cs.splitOnP b.isBreak).length = cs.countP b.isBreak + 1 := by
  induction cs with
  | nil => simp
  | cons c cs ih =>
    rw [List.splitOnP_cons_eq_if_modifyHead, List.countP_cons]
    split <;> simp [ih]

end Report

def Text.IsSingleLine (b : Report.Breaks) (t : Text) : Prop :=
  ∀ p ∈ t.points, b.isBreakAt p = false

instance (b : Report.Breaks) (t : Text) : Decidable (t.IsSingleLine b) :=
  List.decidableBAll _ t.points

namespace Report

variable {b : Breaks} {lines : List Text}

theorem any_isBreakAt {t : Text} : t.points.any b.isBreakAt = false ↔ t.IsSingleLine b := by
  simp [Text.IsSingleLine]

theorem splitLines_body (b : Breaks) (he : ∀ line ∈ lines, IsEnded line) :
    splitLines b (body lines) =
      lines.flatMap fun line => (endLines (shownChars line)).splitOnP b.isBreak := by
  induction lines with
  | nil => simp [body, splitLines, endLines]
  | cons line lines ih =>
    rw [List.forall_mem_cons] at he
    have hbody : body (line :: lines) = shownChars line ++ '\n' :: body lines := by simp [body]
    rw [hbody, splitLines_append b he.1, ih he.2, List.flatMap_cons]

theorem linesOf_body (he : ∀ line ∈ lines, IsEnded line)
    (h : ∀ line ∈ lines, line.IsSingleLine b) :
    linesOf b (.ofList (body lines)) = lines.map shown := by
  have hline : ∀ line ∈ lines,
      (endLines (shownChars line)).splitOnP b.isBreak = [shownChars line] := by
    intro line hl
    have hnone : ∀ c ∈ shownChars line, b.isBreak c = false := by
      have hany := any_shownChars b line
      rw [any_isBreakAt.2 (h line hl)] at hany
      simpa using hany
    have hfeed : '\n' ∉ shownChars line :=
      fun hmem => absurd b.lineFeed (by rw [hnone _ hmem]; exact Bool.noConfusion)
    rw [endLines_eq_self fun _ => hfeed, List.splitOnP_eq_singleton hnone]
  unfold linesOf
  rw [String.toList_ofList, splitLines_body b he, List.flatMap_congr hline, ← List.map_eq_flatMap,
    List.map_map]
  rfl

theorem length_flatMap_eq_iff {pieces : Text → List (List Char)} {breaks : Text → Nat}
    (h : ∀ line, (pieces line).length = breaks line + 1) (lines : List Text) :
    lines.length ≤ (lines.flatMap pieces).length ∧
      ((lines.flatMap pieces).length = lines.length ↔ ∀ line ∈ lines, breaks line = 0) := by
  induction lines with
  | nil => simp
  | cons line lines ih =>
    obtain ⟨hle, hiff⟩ := ih
    rw [List.flatMap_cons, List.length_append, h, List.length_cons, List.forall_mem_cons, ← hiff]
    constructor <;> omega

/-- There are as many lines as in the report only if no line of the report holds the end of one. -/
theorem length_linesOf_body (he : ∀ line ∈ lines, IsEnded line) :
    (linesOf b (.ofList (body lines))).length = lines.length ↔
      ∀ line ∈ lines, line.IsSingleLine b := by
  have hnone (line : Text) :
      (endLines (shownChars line)).countP b.isBreak = 0 ↔ line.IsSingleLine b := by
    rw [List.countP_eq_zero, ← List.any_eq_false, any_endLines, any_shownChars, any_isBreakAt]
  unfold linesOf
  rw [String.toList_ofList, List.length_map, splitLines_body b he,
    (length_flatMap_eq_iff (fun _ => length_splitOnP b _) lines).2]
  simp only [hnone]

/-! Texts of which nothing is left out -/

/-- A text without the characters at which something is left out. -/
def IsKept (s : String) : Prop := '\x1b' ∉ s.toList ∧ '\r' ∉ s.toList

instance (s : String) : Decidable (IsKept s) := inferInstanceAs (Decidable (_ ∧ _))

/-- A text at which every sequence in front of it has come to an end. -/
def IsClosing (t : Text) : Prop := t.points.head?.any isFixed = true

instance (t : Text) : Decidable (IsClosing t) := inferInstanceAs (Decidable (_ = true))

variable {s : String} {t u : Text}

theorem isKept_append {t : String} : IsKept (s ++ t) ↔ IsKept s ∧ IsKept t := by
  unfold IsKept
  rw [String.toList_append, List.mem_append, List.mem_append, not_or, not_or, and_and_and_comm]

theorem IsKept.escape (hs : IsKept s) : CodePoint.char '\x1b' ∉ s.toList.map .char := by
  intro hmem
  obtain ⟨c, hc, he⟩ := List.mem_map.1 hmem
  cases he
  exact hs.1 hc

theorem shownChars_append (hs : IsKept s) (t : Text) :
    shownChars (.ofString s ++ t) = s.toList ++ shownChars t := by
  have hpoints : (Text.ofString s ++ t).points = s.toList.map .char ++ t.points := rfl
  unfold shownChars
  rw [hpoints, plain_append hs.escape, List.filterMap_append, filterMap_char?]

theorem shown_append (hs : IsKept s) (t : Text) : shown (.ofString s ++ t) = s ++ shown t := by
  unfold shown
  rw [shownChars_append hs, String.ofList_append, String.ofList_toList]

theorem shownChars_ofString (hs : IsKept s) : shownChars (.ofString s) = s.toList := by
  have hpoints : (Text.ofString s).points = s.toList.map .char := rfl
  unfold shownChars
  rw [hpoints, plain_eq_self hs.escape, filterMap_char?]

theorem shown_ofString (hs : IsKept s) : shown (.ofString s) = s := by
  rw [shown, shownChars_ofString hs, String.ofList_toList]

theorem isEnded_ofString (hs : IsKept s) : IsEnded (.ofString s) := by
  unfold IsEnded
  rw [shownChars_ofString hs]
  exact fun hr => hs.2 (List.mem_of_getLast? hr)

theorem IsClosing.append (h : IsClosing t) (u : Text) : IsClosing (t ++ u) := by
  have hpoints : (t ++ u).points = t.points ++ u.points := rfl
  unfold IsClosing at h ⊢
  rw [hpoints]
  cases hp : t.points with
  | nil =>
    rw [hp] at h
    contradiction
  | cons p ps =>
    rw [hp] at h
    exact h

theorem IsClosing.shownChars_append (h : IsClosing u) (t : Text) :
    shownChars (t ++ u) = shownChars t ++ shownChars u := by
  have hpoints : (t ++ u).points = t.points ++ u.points := rfl
  unfold IsClosing at h
  unfold shownChars
  rw [hpoints, ← List.filterMap_append]
  cases hp : u.points with
  | nil =>
    rw [hp] at h
    contradiction
  | cons p ps =>
    rw [hp] at h
    have hself := plain_append_cons h [] ps
    rw [List.nil_append, plain, List.nil_append] at hself
    rw [plain_append_cons h, hself]

theorem IsClosing.shown_append (h : IsClosing u) (t : Text) :
    shown (t ++ u) = shown t ++ shown u := by
  unfold shown
  rw [h.shownChars_append, String.ofList_append]

theorem isEnded_append (hc : IsClosing (.ofString s)) (hs : IsKept s) (t : Text) :
    IsEnded (t ++ .ofString s) := by
  have hlast : s.toList.getLast? ≠ some '\r' := fun hr => hs.2 (List.mem_of_getLast? hr)
  unfold IsEnded
  rw [hc.shownChars_append, shownChars_ofString hs, List.getLast?_append]
  cases hl : s.toList.getLast? with
  | none =>
    rw [List.getLast?_eq_none_iff, String.toList_eq_nil_iff] at hl
    rw [hl] at hc
    exact absurd hc (by decide)
  | some c =>
    rw [hl] at hlast
    exact hlast

/-! Visible texts -/

def AllVisible (s : String) : Prop := ∀ c ∈ s.toList, IsVisible c

instance (s : String) : Decidable (AllVisible s) := List.decidableBAll _ s.toList

theorem allVisible_append {s t : String} : AllVisible (s ++ t) ↔ AllVisible s ∧ AllVisible t := by
  unfold AllVisible
  rw [String.toList_append, List.forall_mem_append]

theorem AllVisible.isKept {s : String} (h : AllVisible s) : IsKept s :=
  ⟨fun hmem => absurd (h _ hmem) (by decide), fun hmem => absurd (h _ hmem) (by decide)⟩

theorem isVisible_of_isNamePart {c : Char} (h : Field.isNamePart c = true) : IsVisible c := by
  rw [Field.isNamePart, Bool.or_eq_true] at h
  rcases h with h | h
  · rcases Field.isNameStart_iff.1 h with h | rfl
    · exact isVisible_of_isLetter h
    · decide
  · exact isVisible_of_isParameter (by simp [isParameter, h])

theorem allVisible_of_isIdentifier {s : String} (h : IsIdentifier s) : AllVisible s := by
  obtain ⟨c, cs, hs, hc, -, hcs⟩ := h
  have hc : c.isAlphanum = true ∨ c = '_' := hc.imp_left fun hc => by simp [Char.isAlphanum, hc]
  unfold AllVisible
  rw [hs, List.forall_mem_cons]
  exact ⟨isVisible_of_isNamePart (Field.isNamePart_iff.2 hc),
    fun d hd => isVisible_of_isNamePart (Field.isNamePart_iff.2 (hcs d hd))⟩

end Report

end CanonicalSchema
