import CanonicalSchema.Proofs.PrintedLines
import CanonicalSchema.Proofs.Reporting

/-!
What the comparison of two saved schemas tells. The difference is read off the output again: each
line starts with what it is about, and no field has a name that could be taken for anything but the
rest of one line, with perhaps an empty line after it.
-/

namespace CanonicalSchema

open Report

namespace Difference

/-! A difference from its lines -/

def name? (mark : Char) : List Char → Option String
  | c :: ' ' :: name => if c = mark then some (.ofList name) else none
  | _ => none

def ofLines (ls : List (List Char)) : Difference where
  added := ls.filterMap (name? '+')
  removed := ls.filterMap (name? '-')
  changed := ls.filterMap (name? '~')
  orderChanged := ls.contains "Canonical order changed.".toList
  indexChanged := ls.contains "Index changed.".toList

/-- An empty line is the end of the line above it, at which there is a line feed more. -/
def withBlanks : List (List Char) → List (List Char)
  | l :: [] :: rest => (l ++ ['\n']) :: withBlanks rest
  | l :: rest => l :: withBlanks rest
  | [] => []

def ofPrinted (out : String) : Difference := ofLines (withBlanks (splitLines .lineFeeds out.toList))

theorem name?_mark (c mark : Char) (n : String) :
    name? mark (c :: ' ' :: n.toList) = if c = mark then some n else none := by
  rw [name?, String.ofList_toList]

theorem filterMap_name? (c mark : Char) (names : List String) :
    (names.map fun n => c :: ' ' :: n.toList).filterMap (name? mark) =
      if c = mark then names else [] := by
  rw [List.filterMap_map]
  split
  · next h =>
    have hself : (name? mark ∘ fun n => c :: ' ' :: n.toList) = some := by
      funext n
      exact (name?_mark c mark n).trans (if_pos h)
    rw [hself, List.filterMap_some]
  · next h =>
    rw [List.filterMap_eq_nil_iff]
    exact fun n _ => (name?_mark c mark n).trans (if_neg h)

theorem filterMap_name?_flag {mark : Char} {flag : List Char} (h : name? mark flag = none)
    (b : Bool) : (if b then [flag] else []).filterMap (name? mark) = [] := by
  cases b with
  | false => rfl
  | true => exact List.filterMap_cons_none h

theorem not_mem_marked {flag : List Char} (h : flag[1]? ≠ some ' ') (c : Char)
    (names : List String) : flag ∉ names.map fun n => c :: ' ' :: n.toList := by
  intro hmem
  obtain ⟨n, -, rfl⟩ := List.mem_map.1 hmem
  exact h rfl

theorem map_changeLines (d : Difference) : (changeLines d).map String.toList =
    d.added.map (fun n => '+' :: ' ' :: n.toList) ++ d.removed.map (fun n => '-' :: ' ' :: n.toList)
      ++ d.changed.map (fun n => '~' :: ' ' :: n.toList)
      ++ (if d.orderChanged then ["Canonical order changed.".toList] else [])
      ++ (if d.indexChanged then ["Index changed.".toList] else []) := by
  unfold changeLines
  simp only [List.map_append, List.map_map, Function.comp_def, String.toList_append,
    apply_ite (List.map String.toList), List.map_cons, List.map_nil]
  rfl

theorem filterMap_changeLines (mark : Char) (d : Difference) :
    ((changeLines d).map String.toList).filterMap (name? mark) =
      (if '+' = mark then d.added else []) ++ (if '-' = mark then d.removed else [])
        ++ (if '~' = mark then d.changed else []) := by
  have horder : name? mark "Canonical order changed.".toList = none := rfl
  have hindex : name? mark "Index changed.".toList = none := rfl
  rw [map_changeLines]
  simp only [List.filterMap_append, filterMap_name?, filterMap_name?_flag horder,
    filterMap_name?_flag hindex, List.append_nil]

theorem mem_changeLines_iff {flag : List Char} (h : flag[1]? ≠ some ' ') (d : Difference) :
    flag ∈ (changeLines d).map String.toList ↔
      d.orderChanged = true ∧ flag = "Canonical order changed.".toList ∨
        d.indexChanged = true ∧ flag = "Index changed.".toList := by
  rw [map_changeLines]
  simp only [List.mem_append, not_mem_marked h, false_or, List.mem_ite_nil_right,
    List.mem_singleton]

/-- Nothing of a difference is lost on its lines. -/
theorem ofLines_changeLines (d : Difference) : ofLines ((changeLines d).map String.toList) = d := by
  obtain ⟨added, removed, changed, orderChanged, indexChanged⟩ := d
  rw [ofLines, mk.injEq]
  refine ⟨?_, ?_, ?_, ?_, ?_⟩
  · rw [filterMap_changeLines]
    simp
  · rw [filterMap_changeLines]
    simp
  · rw [filterMap_changeLines]
    simp
  · rw [Bool.eq_iff_iff, List.contains_iff_mem, mem_changeLines_iff (by decide)]
    simp
  · rw [Bool.eq_iff_iff, List.contains_iff_mem, mem_changeLines_iff (by decide)]
    simp

/-! The lines of an output -/

theorem withBlanks_cons {rest : List (List Char)} (h : rest.head? ≠ some []) (l : List Char) :
    withBlanks (l :: rest) = l :: withBlanks rest := by
  rw [withBlanks]
  rintro rest' rfl
  exact h rfl

/-- A line of visible characters, which a line feed may follow. -/
def IsChangeLine (s : String) : Prop := ∃ t, AllVisible t ∧ t ≠ "" ∧ (s = t ∨ s = t ++ "\n")

theorem IsChangeLine.isKept {s : String} (h : IsChangeLine s) : IsKept s := by
  obtain ⟨t, ht, -, rfl | rfl⟩ := h
  · exact ht.isKept
  · exact isKept_append.2 ⟨ht.isKept, by decide⟩

theorem isChangeLine_append {words n : String} (hw : AllVisible words) (hne : words ≠ "")
    (hn : IsIdentifierLine n) : IsChangeLine (words ++ n) := by
  obtain ⟨t, ht, rfl | rfl⟩ := hn
  · exact ⟨_, allVisible_append.2 ⟨hw, allVisible_of_isIdentifier ht⟩, by simp [hne], Or.inl rfl⟩
  · exact ⟨_, allVisible_append.2 ⟨hw, allVisible_of_isIdentifier ht⟩, by simp [hne],
      Or.inr (String.append_assoc).symm⟩

theorem IsChangeLine.pieces {s : String} (h : IsChangeLine s) : ∃ l, l ≠ [] ∧
    (s.toList = l ∧ s.toList.splitOnP Breaks.lineFeeds.isBreak = [l] ∨
      s.toList = l ++ ['\n'] ∧ s.toList.splitOnP Breaks.lineFeeds.isBreak = [l, []]) := by
  obtain ⟨t, ht, hne, hs⟩ := h
  have hsplit : t.toList.splitOnP Breaks.lineFeeds.isBreak = [t.toList] :=
    List.splitOnP_eq_singleton fun c hc => Breaks.lineFeeds.visible c (ht c hc)
  refine ⟨t.toList, by simpa using hne, ?_⟩
  rcases hs with rfl | rfl
  · exact Or.inl ⟨rfl, hsplit⟩
  · refine Or.inr ⟨String.toList_append, ?_⟩
    have hfeed : "\n".toList = ['\n'] := rfl
    rw [String.toList_append, hfeed, List.splitOnP_append_cons _ _ Breaks.lineFeeds.lineFeed,
      hsplit]
    rfl

theorem withBlanks_pieces {ss : List String} (h : ∀ s ∈ ss, IsChangeLine s) :
    (ss.flatMap fun s => s.toList.splitOnP Breaks.lineFeeds.isBreak).head? ≠ some [] ∧
      withBlanks (ss.flatMap fun s => s.toList.splitOnP Breaks.lineFeeds.isBreak) =
        ss.map String.toList := by
  -- An empty line in front of the rest would be taken for the end of the line before it.
  induction ss with
  | nil => exact ⟨nofun, rfl⟩
  | cons s ss ih =>
    rw [List.forall_mem_cons] at h
    obtain ⟨hhead, hrest⟩ := ih h.2
    obtain ⟨l, hne, ⟨hs, hpieces⟩ | ⟨hs, hpieces⟩⟩ := h.1.pieces
    · rw [List.flatMap_cons, hpieces, List.singleton_append, withBlanks_cons hhead, hrest,
        List.map_cons, hs]
      exact ⟨fun he => hne (Option.some.inj he), rfl⟩
    · rw [List.flatMap_cons, hpieces, List.cons_append, List.singleton_append, withBlanks, hrest,
        List.map_cons, hs]
      exact ⟨fun he => hne (Option.some.inj he), rfl⟩

theorem withBlanks_splitLines {ss : List String} (h : ∀ s ∈ ss, IsChangeLine s) :
    withBlanks (splitLines .lineFeeds (body (ss.map .ofString))) = ss.map String.toList := by
  have hended : ∀ line ∈ ss.map Text.ofString, IsEnded line :=
    List.forall_mem_map.2 fun s hs => isEnded_ofString (h s hs).isKept
  have hpieces : splitLines .lineFeeds (body (ss.map .ofString)) =
      ss.flatMap fun s => s.toList.splitOnP Breaks.lineFeeds.isBreak := by
    rw [splitLines_body _ hended, List.flatMap_map]
    refine List.flatMap_congr fun s hs => ?_
    have hkept := (h s hs).isKept
    rw [shownChars_ofString hkept, endLines_eq_self fun hr => absurd hr hkept.2]
  rw [hpieces]
  exact (withBlanks_pieces h).2

/-! What an output tells -/

/-- The exit code and the fixed words say whether there are changes, and the changes are read off
the output. -/
structure ToldBy (d : Difference) (out : Output) : Prop where
  unchanged : out.exitCode = 0 ∧ out.stdout = "No changes.\n" ↔ d.hasChanges = false
  changed : out.exitCode = 2 ↔ d.hasChanges = true
  quiet : out.stderr = ""
  recovered : ofPrinted out.stdout = d

theorem eq_of_unchanged {d : Difference} (h : d.hasChanges = false) :
    d = ⟨[], [], [], false, false⟩ := by
  obtain ⟨added, removed, changed, orderChanged, indexChanged⟩ := d
  simp only [hasChanges, Bool.or_eq_false_iff, Bool.not_eq_false', Bool.and_eq_true,
    List.isEmpty_iff] at h
  obtain ⟨⟨⟨⟨rfl, rfl⟩, rfl⟩, rfl⟩, rfl⟩ := h
  rfl

theorem toldBy_output {d : Difference} (h : ∀ line ∈ changeLines d, IsChangeLine line) :
    ∃ out, (ofDifference d).output = .ok out ∧ d.ToldBy out := by
  cases hd : d.hasChanges with
  | false =>
    rw [ofDifference, if_neg (by simp [hd])]
    refine ⟨_, output_noChanges, ?_, ?_, rfl, ?_⟩
    · simp [hd]
    · simp [hd]
    · rw [eq_of_unchanged hd]
      decide +kernel
  | true =>
    rw [ofDifference, if_pos hd]
    have hchars : ∀ line ∈ (changeLines d).map Text.ofString, line.OfCharacters :=
      List.forall_mem_map.2 fun s _ => Text.ofCharacters_ofString s
    refine ⟨_, output_eq hchars, ?_, ?_, rfl, ?_⟩
    · simp [hd]
    · simp [hd]
    · rw [ofPrinted, String.toList_ofList, withBlanks_splitLines h, ofLines_changeLines]

/-- A name with a line feed at its end has an empty line after it. -/
example : ofPrinted "+ tags\n\n- tags\nIndex changed.\n" =
    ⟨["tags\n"], ["tags"], [], false, true⟩ := by
  decide +kernel

theorem isChangeLine_between {old new : Schema} (ho : ∀ n ∈ old.fieldNames, IsIdentifierLine n)
    (hn : ∀ n ∈ new.fieldNames, IsIdentifierLine n) :
    ∀ line ∈ changeLines (between old new), IsChangeLine line := by
  have hnames {words : String} {names : List String} (hw : AllVisible words) (hne : words ≠ "")
      (h : ∀ n ∈ names, IsIdentifierLine n) : ∀ line ∈ names.map (words ++ ·), IsChangeLine line :=
    List.forall_mem_map.2 fun n hmem => isChangeLine_append hw hne (h n hmem)
  have hflag {words : String} (hw : AllVisible words) (hne : words ≠ "") (b : Bool) :
      ∀ line ∈ if b then [words] else [], IsChangeLine line := by
    cases b with
    | false => exact List.forall_mem_nil _
    | true => exact List.forall_mem_singleton.2 ⟨words, hw, hne, Or.inl rfl⟩
  unfold changeLines between
  simp only [List.forall_mem_append]
  refine ⟨⟨⟨⟨?_, ?_⟩, ?_⟩, hflag (by decide) (by decide) _⟩, hflag (by decide) (by decide) _⟩
  · exact hnames (by decide) (by decide) fun n h => hn n (List.mem_of_mem_filter h)
  · exact hnames (by decide) (by decide) fun n h => ho n (List.mem_of_mem_filter h)
  · exact hnames (by decide) (by decide) fun n h => hn n (List.mem_of_mem_filter h)

end Difference

/-! Schemas in files -/

/-- A schema, however it came about, that can be written to a file: its texts can be encoded. -/
structure Schema.Storable (s : Schema) : Prop where
  constructed : s.Constructed
  ofCharacters : s.OfCharacters

namespace Command

variable {depth : Depth} {files : Files} {p q : Path} {a b s : Schema}

theorem load_of_bytes (hs : s.Storable) (hl : s.HasShortLimits)
    (h : files p = .ok (some (Snapshot.bytes s))) : load depth files p = .ok s :=
  load_of_file h (Snapshot.load_bytes hs.constructed.normal hs.ofCharacters hl depth p)

theorem load_of_long_limit (hs : s.Storable) (hl : ¬ s.HasShortLimits)
    (h : files p = .ok (some (Snapshot.bytes s))) : ∃ digits, load depth files p =
      .error (.fault (.snapshot (.document (.content (.longInteger digits))))) := by
  obtain ⟨digits, hload⟩ := Snapshot.load_bytes_escapes
    hs.constructed.normal.wellFormed.keys_nodup hs.ofCharacters hl depth
  exact ⟨digits, load_of_escaped h (hload p)⟩

theorem run_compare_told (ha : a.Storable) (hb : b.Storable) (hla : a.HasShortLimits)
    (hlb : b.HasShortLimits) (hp : files p = .ok (some (Snapshot.bytes a)))
    (hq : files q = .ok (some (Snapshot.bytes b))) :
    ∃ out, (compare p q).run depth files = .ok out ∧ (Difference.between a b).ToldBy out := by
  have hlines := Difference.isChangeLine_between (fun _ => ha.constructed.isIdentifierLine)
    fun _ => hb.constructed.isIdentifierLine
  obtain ⟨out, hout, htold⟩ := Difference.toldBy_output hlines
  refine ⟨out, ?_, htold⟩
  rw [run_compare (load_of_bytes ha hla hp) (load_of_bytes hb hlb hq), hout]
  rfl

/-- The first long limit, be it of the first schema or of the second, ends the comparison. -/
theorem run_compare_long_limit (ha : a.Storable) (hb : b.Storable)
    (hl : ¬ (a.HasShortLimits ∧ b.HasShortLimits))
    (hp : files p = .ok (some (Snapshot.bytes a))) (hq : files q = .ok (some (Snapshot.bytes b))) :
    ∃ digits, (compare p q).run depth files =
      .error (.snapshot (.document (.content (.longInteger digits)))) := by
  by_cases hla : a.HasShortLimits
  · obtain ⟨digits, hload⟩ := load_of_long_limit hb (fun hlb => hl ⟨hla, hlb⟩) hq
    exact ⟨digits, run_of_fault (report_compare_error_right (load_of_bytes ha hla hp) hload)⟩
  · obtain ⟨digits, hload⟩ := load_of_long_limit ha hla hp
    exact ⟨digits, run_of_fault (report_compare_error hload q)⟩

/-! Files that are refused -/

/-- There is no file, or what is wrong with it is reported. -/
def Refused (depth : Depth) (files : Files) (p : Path) : Prop :=
  files p = .ok none ∨ ∃ bytes failure, files p = .ok (some bytes) ∧
    Snapshot.load depth p bytes = .error (.snapshot failure)

def Fails (c : Command) (depth : Depth) (files : Files) : Prop :=
  ∃ stderr, c.run depth files = .ok ⟨1, "", stderr⟩

theorem Refused.load (h : Refused depth files p) :
    ∃ line, load depth files p = .error (.report (.failed line)) := by
  unfold Command.load
  rcases h with h | ⟨bytes, failure, h, hl⟩
  · simp only [h]
    exact ⟨_, rfl⟩
  · simp only [h, hl]
    exact ⟨_, rfl⟩

theorem fails_of_report {c : Command} {line : Text}
    (h : c.report depth files = .error (.report (.failed line))) : c.Fails depth files := by
  refine ⟨(Report.failed line).stderr, ?_⟩
  unfold run
  rw [h]
  rfl

theorem Refused.fails_old (h : Refused depth files p) (q : Path) :
    (compare p q).Fails depth files := by
  obtain ⟨line, hl⟩ := h.load
  exact fails_of_report (report_compare_error hl q)

theorem Refused.fails_new (h : Refused depth files q)
    (hs : Command.load depth files p = .ok s) : (compare p q).Fails depth files := by
  obtain ⟨line, hl⟩ := h.load
  exact fails_of_report (report_compare_error_right hs hl)

/-- Two schemas that were saved to different files are compared as they are, in either order: the
output tells whether there is a difference, and all of it. That is so where the limits of both are
short; a long one ends the command without a report. The command fails where the first file is
refused, whatever the second one is, and where the first is loaded and the second refused. -/
theorem compare_tells_difference (depth : Depth) :
    (∀ {a b : Schema} {tree tree₁ tree₂ : FileTree} {p q : Path}, a.Storable → b.Storable →
      tree.save p (Snapshot.bytes a) = (tree₁, none) →
      tree₁.save q (Snapshot.bytes b) = (tree₂, none) →
      tree₂.locate p ≠ tree₂.locate q →
        (a.HasShortLimits → b.HasShortLimits →
          (∃ out, (compare p q).run depth tree₂.file? = .ok out ∧
            (Difference.between a b).ToldBy out) ∧
          ∃ out, (compare q p).run depth tree₂.file? = .ok out ∧
            (Difference.between b a).ToldBy out) ∧
        (¬ (a.HasShortLimits ∧ b.HasShortLimits) →
          ∃ digits, (compare p q).run depth tree₂.file? =
            .error (.snapshot (.document (.content (.longInteger digits)))))) ∧
    ∀ {files : Files} {old new : Path},
      (Refused depth files old → (compare old new).Fails depth files) ∧
      ∀ s, load depth files old = .ok s → Refused depth files new →
        (compare old new).Fails depth files := by
  constructor
  · intro a b tree tree₁ tree₂ p q ha hb hp hq hne
    have hfirst := FileTree.file?_of_read
      (FileTree.read_of_save_of_ne hq hne (FileTree.read_of_save hp))
    have hsecond := FileTree.file?_of_read (FileTree.read_of_save hq)
    exact ⟨fun hla hlb => ⟨run_compare_told ha hb hla hlb hfirst hsecond,
      run_compare_told hb ha hlb hla hsecond hfirst⟩,
      fun hl => run_compare_long_limit ha hb hl hfirst hsecond⟩
  · intro files old new
    exact ⟨fun h => h.fails_old new, fun s hs h => h.fails_new hs⟩

theorem storable_withField {n : String} (hn : IsIdentifierLine n) :
    (Schema.withField n).Storable where
  constructed := .loaded (Schema.load_withField hn .standard Snapshot.defaultPath)
  ofCharacters := Schema.ofCharacters_withField n

def savedTags : FileTree :=
  (FileTree.empty.save Difference.oldPath (Snapshot.bytes (Schema.withField "tags"))).1

def savedBoth : FileTree :=
  (savedTags.save Difference.newPath (Snapshot.bytes (Schema.withField "tags\n"))).1

theorem compare_tells_difference_tags :
    FileTree.empty.save Difference.oldPath (Snapshot.bytes (Schema.withField "tags")) =
        (savedTags, none) ∧
      savedTags.save Difference.newPath (Snapshot.bytes (Schema.withField "tags\n")) =
        (savedBoth, none) ∧
      (∃ out, (compare Difference.oldPath Difference.newPath).run .standard savedBoth.file? =
          .ok out ∧
        (Difference.between (Schema.withField "tags") (Schema.withField "tags\n")).ToldBy out) ∧
      (compare emptyPath Difference.newPath).Fails .standard savedBoth.file? := by
  have htags : IsIdentifierLine "tags" := Field.isName_iff.1 (by decide)
  have hline : IsIdentifierLine "tags\n" := Field.isName_iff.1 (by decide)
  have hp : FileTree.empty.save Difference.oldPath (Snapshot.bytes (Schema.withField "tags")) =
      (savedTags, none) := Prod.ext rfl (by decide +kernel)
  have hq : savedTags.save Difference.newPath (Snapshot.bytes (Schema.withField "tags\n")) =
      (savedBoth, none) := Prod.ext rfl (by decide +kernel)
  have hne : savedBoth.locate Difference.oldPath ≠ savedBoth.locate Difference.newPath := by
    decide +kernel
  have hmissing : savedBoth.file? emptyPath = .ok none := by decide +kernel
  obtain ⟨hsaved, hrefused⟩ := compare_tells_difference .standard
  obtain ⟨htold, -⟩ :=
    (hsaved (storable_withField htags) (storable_withField hline) hp hq hne).1
      (Schema.hasShortLimits_withField _) (Schema.hasShortLimits_withField _)
  exact ⟨hp, hq, htold, hrefused.1 (Or.inl hmissing)⟩

/-! A limit that is saved and not read -/

theorem storable_limited : Snapshot.limited.Storable where
  constructed := .validated Snapshot.distinctLabels_limitedJson Snapshot.ofJson_limitedJson
  ofCharacters := Snapshot.ofCharacters_limited

def savedLimited : FileTree :=
  (FileTree.empty.save Difference.oldPath (Snapshot.bytes Snapshot.limited)).1

def savedLimitedTwice : FileTree :=
  (savedLimited.save Difference.newPath (Snapshot.bytes Snapshot.limited)).1

/-- There is no difference, and the command ends without saying so. -/
theorem compare_limited_unreported :
    Snapshot.limited.Storable ∧
      FileTree.empty.save Difference.oldPath (Snapshot.bytes Snapshot.limited) =
        (savedLimited, none) ∧
      savedLimited.save Difference.newPath (Snapshot.bytes Snapshot.limited) =
        (savedLimitedTwice, none) ∧
      savedLimitedTwice.locate Difference.oldPath ≠ savedLimitedTwice.locate Difference.newPath ∧
      (Difference.between Snapshot.limited Snapshot.limited).hasChanges = false ∧
      ∃ digits, (compare Difference.oldPath Difference.newPath).run .standard
        savedLimitedTwice.file? =
          .error (.snapshot (.document (.content (.longInteger digits)))) := by
  have hp : FileTree.empty.save Difference.oldPath (Snapshot.bytes Snapshot.limited) =
      (savedLimited, none) := Prod.ext rfl (by decide +kernel)
  have hq : savedLimited.save Difference.newPath (Snapshot.bytes Snapshot.limited) =
      (savedLimitedTwice, none) := Prod.ext rfl (by decide +kernel)
  have hne : savedLimitedTwice.locate Difference.oldPath ≠
      savedLimitedTwice.locate Difference.newPath := by decide +kernel
  have hfirst := FileTree.file?_of_read
    (FileTree.read_of_save_of_ne hq hne (FileTree.read_of_save hp))
  exact ⟨storable_limited, hp, hq, hne, by decide +kernel,
    run_compare_long_limit storable_limited storable_limited
      (fun hl => Snapshot.not_hasShortLimits_limited hl.1) hfirst
      (FileTree.file?_of_read (FileTree.read_of_save hq))⟩

end Command

end CanonicalSchema
