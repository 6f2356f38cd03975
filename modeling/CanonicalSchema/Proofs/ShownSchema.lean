import CanonicalSchema.Proofs.PrintedLines
import CanonicalSchema.Proofs.Reporting

/-!
How the report on a schema is laid out. It has a line for each field between lines of its own. What
it shows of a schema is put into these lines as it is, but for escape sequences, so the output has
the lines of the report exactly where no text that is shown holds the end of a line.
-/

namespace CanonicalSchema

open Report

/-! Texts put together -/

namespace Text

theorem ofString_append (s t : String) : ofString (s ++ t) = ofString s ++ ofString t := by
  unfold ofString ofChars
  rw [String.toList_append, List.map_append]
  rfl

theorem append_assoc (s t u : Text) : s ++ t ++ u = s ++ (t ++ u) :=
  congrArg mk (List.append_assoc _ _ _)

theorem ofString_intercalate (between : String) (ss : List String) :
    ofString (between.intercalate ss) = join (ofString between) (ss.map ofString) := by
  apply congrArg mk
  rw [String.toList_intercalate]
  induction ss with
  | nil => rfl
  | cons s ss ih =>
    cases ss with
    | nil => simp [ofString, ofChars]
    | cons s' ss =>
      simp only [List.map_cons, List.intercalate_cons_cons, List.map_append] at ih ⊢
      rw [ih]
      rfl

end Text

namespace Report

/-! Visible texts -/

theorem allVisible_iff_each {s : String} :
    AllVisible s ↔ (Text.ofString s).Each fun p => ∃ c, p = .char c ∧ IsVisible c := by
  unfold AllVisible Text.Each Text.ofString Text.ofChars
  simp

theorem allVisible_ofNames {names : List String} (h : ∀ n ∈ names, AllVisible n) :
    AllVisible (ofNames names) := by
  unfold ofNames
  split
  · decide
  · rw [allVisible_iff_each, Text.ofString_intercalate,
      Text.each_join_iff (allVisible_iff_each.1 (by decide)), List.forall_mem_map]
    exact fun n hn => allVisible_iff_each.1 (h n hn)

theorem isVisible_hexDigit (n : Nat) : IsVisible (Digits.hexDigit n) := by
  have hall : ∀ d < 16, IsVisible (Digits.hexDigit d) := by decide
  rw [← Digits.hexDigit_mod]
  exact hall _ (Nat.mod_lt _ (by decide))

theorem isVisible_of_mem_writeHex {width n : Nat} {c : Char} (h : c ∈ Digits.writeHex width n) :
    IsVisible c := by
  induction width generalizing n with
  | zero => contradiction
  | succ width ih =>
    rw [Digits.writeHex, List.mem_append, List.mem_singleton] at h
    rcases h with h | rfl
    · exact ih h
    · exact isVisible_hexDigit n

theorem allVisible_fingerprint (s : Schema) : AllVisible s.fingerprint := by
  intro c hc
  unfold Schema.fingerprint at hc
  rw [String.toList_ofList, List.mem_flatMap] at hc
  obtain ⟨byte, -, hc⟩ := hc
  exact isVisible_of_mem_writeHex hc

theorem allVisible_type (t : FieldType) : AllVisible t.label := by
  cases t <;> decide

theorem allVisible_kind (k : LinkKind) : AllVisible k.label := by
  cases k <;> decide

end Report

/-! What is shown -/

def Field.linkTargets (f : Field) : List Text :=
  (match f.reference with
    | some r => if f.isForeignKey then [.ofString r.target] else []
    | none => [])
  ++ (match f.connection with
    | some c => [.ofString c.target]
    | none => [])

/-- What is shown beside the names of the fields and fixed words. -/
def Schema.shownTexts (s : Schema) : List Text :=
  [.ofString s.name, s.targetName]
    ++ s.sortedFields.flatMap (fun f => f.targetName :: f.linkTargets)
    ++ (s.index.name.toList ++ s.index.fields)

namespace Report

theorem allVisible_summary {s : Schema} (hn : ∀ f ∈ s.sortedFields, AllVisible f.name) :
    AllVisible (ofNames (s.primaryKey?.toList.map Field.name)) ∧
      AllVisible (ofNames (s.foreignKeys.map Field.name)) ∧
      AllVisible (ofNames (s.connections.map fun c => c.1.name)) := by
  refine ⟨allVisible_ofNames ?_, allVisible_ofNames ?_, allVisible_ofNames ?_⟩
  · rw [List.forall_mem_map]
    exact fun f hf => hn f (List.mem_of_find?_eq_some (Option.mem_toList.1 hf))
  · rw [List.forall_mem_map]
    exact fun f hf => hn f (List.mem_of_mem_filter hf)
  · rw [List.forall_mem_map]
    intro e he
    obtain ⟨f, hf, he⟩ := List.mem_filterMap.1 he
    obtain ⟨c, -, rfl⟩ := Option.map_eq_some_iff.1 he
    exact hn f hf

theorem allVisible_of_fieldNames {s : Schema} (hn : ∀ n ∈ s.fieldNames, IsIdentifier n) :
    ∀ f ∈ s.sortedFields, AllVisible f.name := by
  intro f hf
  exact allVisible_of_isIdentifier (hn f.name (List.mem_map_of_mem hf))

/-! The parts of the line of a field -/

def targetPart (f : Field) : Text :=
  if f.targetName = .ofString f.name then "" else " as " ++ f.targetName

def markerPart (f : Field) : String :=
  if (markers f).isEmpty then "" else "  [" ++ String.intercalate ", " (markers f) ++ "]"

theorem fieldLine_eq (f : Field) :
    fieldLine f = .ofString ("  " ++ f.name) ++
      (targetPart f ++ (.ofString ": " ++ .ofString (f.type.label ++ markerPart f))) := by
  unfold fieldLine targetPart markerPart
  simp only [Text.ofString_append, Text.append_assoc]

section Each

variable {P : CodePoint → Prop} (hP : ∀ c, IsVisible c → P (.char c))

include hP

theorem AllVisible.each {s : String} (h : AllVisible s) : (Text.ofString s).Each P := by
  intro p hp
  obtain ⟨c, hc, rfl⟩ := List.mem_map.1 hp
  exact hP c (h c hc)

theorem each_visible_append_iff {s : String} (hs : AllVisible s) {t : Text} :
    (Text.ofString s ++ t).Each P ↔ t.Each P := by
  rw [Text.each_append_iff, and_iff_right (hs.each hP)]

theorem each_append_visible_iff {s : String} (hs : AllVisible s) {t : Text} :
    (t ++ Text.ofString s).Each P ↔ t.Each P := by
  rw [Text.each_append_iff, and_iff_left (hs.each hP)]

theorem each_markers_iff (f : Field) :
    (∀ m ∈ markers f, (Text.ofString m).Each P) ↔ ∀ t ∈ f.linkTargets, t.Each P := by
  have hkey : (Text.ofString "pk").Each P := AllVisible.each hP (by decide)
  have hreference (target : String) :
      (Text.ofString ("fk -> " ++ target)).Each P ↔ (Text.ofString target).Each P := by
    rw [Text.ofString_append, each_visible_append_iff hP (by decide)]
  have hconnection (c : Connection) :
      (Text.ofString (c.kind.label ++ " -> " ++ c.target)).Each P ↔
        (Text.ofString c.target).Each P := by
    have hkind := allVisible_append.2 ⟨allVisible_kind c.kind, (by decide : AllVisible " -> ")⟩
    rw [Text.ofString_append, each_visible_append_iff hP hkind]
  unfold markers Field.linkTargets
  simp only [List.forall_mem_append]
  refine and_congr (Iff.trans (and_iff_right ?_) ?_) ?_
  · split <;> simp [hkey]
  · cases f.reference with
    | none => simp
    | some r => cases f.isForeignKey <;> simp [hreference]
  · cases f.connection with
    | none => simp
    | some c => simp [hconnection]

theorem each_markerPart_iff (f : Field) :
    (Text.ofString (markerPart f)).Each P ↔ ∀ t ∈ f.linkTargets, t.Each P := by
  rw [← each_markers_iff hP]
  unfold markerPart
  split
  · next h =>
    rw [List.isEmpty_iff.1 h]
    exact iff_of_true (AllVisible.each hP (by decide)) (List.forall_mem_nil _)
  · rw [Text.ofString_append, each_append_visible_iff hP (by decide), Text.ofString_append,
      each_visible_append_iff hP (by decide), Text.ofString_intercalate,
      Text.each_join_iff (AllVisible.each hP (by decide)), List.forall_mem_map]

theorem each_targetPart_iff {f : Field} (hn : AllVisible f.name) :
    (targetPart f).Each P ↔ f.targetName.Each P := by
  unfold targetPart
  split
  · next h =>
    rw [h]
    exact iff_of_true (AllVisible.each hP (by decide)) (hn.each hP)
  · exact each_visible_append_iff hP (by decide)

theorem each_fieldLine_iff {f : Field} (hn : AllVisible f.name) :
    (fieldLine f).Each P ↔ ∀ t ∈ f.targetName :: f.linkTargets, t.Each P := by
  rw [fieldLine_eq, each_visible_append_iff hP (allVisible_append.2 ⟨by decide, hn⟩),
    Text.each_append_iff, each_targetPart_iff hP hn, each_visible_append_iff hP (by decide),
    Text.ofString_append, each_visible_append_iff hP (allVisible_type f.type),
    each_markerPart_iff hP, List.forall_mem_cons]

theorem each_indexLines_iff (i : Index) :
    (∀ line ∈ indexLines i, line.Each P) ↔ ∀ t ∈ i.name.toList ++ i.fields, t.Each P := by
  unfold indexLines
  split
  · next h =>
    rw [Index.isEmpty, Bool.and_eq_true, Option.isNone_iff_eq_none, List.isEmpty_iff] at h
    rw [h.1, h.2]
    exact iff_of_true (List.forall_mem_nil _) (List.forall_mem_nil _)
  · rw [List.forall_mem_singleton, each_append_visible_iff hP (by decide), Text.each_append_iff,
      each_append_visible_iff hP (by decide), each_visible_append_iff hP (by decide),
      Text.each_join_iff (AllVisible.each hP (by decide)), List.forall_mem_append]
    refine and_congr_left fun _ => ?_
    have hnone : (Text.ofString "-").Each P := AllVisible.each hP (by decide)
    cases i.name with
    | none => simpa using hnone
    | some n =>
      simp only [Option.toList_some, List.forall_mem_singleton]
      split
      · next hn =>
        have hempty : n.Each P := by
          rw [Text.isEmpty, List.isEmpty_iff] at hn
          rw [Text.Each, hn]
          exact List.forall_mem_nil _
        exact iff_of_true hnone hempty
      · rfl

theorem each_headLines_iff (s : Schema) :
    (∀ line ∈ headLines s, line.Each P) ↔ ∀ t ∈ [.ofString s.name, s.targetName], t.Each P := by
  have hfingerprint := (allVisible_fingerprint s).each hP
  have hfields : (Text.ofString "Fields:").Each P := AllVisible.each hP (by decide)
  unfold headLines
  simp only [List.forall_mem_cons]
  rw [each_append_visible_iff hP (by decide), Text.each_append_iff,
    each_append_visible_iff hP (by decide), each_visible_append_iff hP (by decide),
    each_visible_append_iff hP (by decide), and_iff_right hfingerprint, and_iff_right hfields,
    and_assoc]

theorem each_summaryLines {s : Schema} (hn : ∀ f ∈ s.sortedFields, AllVisible f.name) :
    ∀ line ∈ summaryLines s, line.Each P := by
  obtain ⟨hkey, hforeign, hconnections⟩ := allVisible_summary hn
  unfold summaryLines
  simp only [List.forall_mem_cons]
  exact ⟨(each_visible_append_iff hP (by decide)).2 (hkey.each hP),
    (each_visible_append_iff hP (by decide)).2 (hforeign.each hP),
    (each_visible_append_iff hP (by decide)).2 (hconnections.each hP), List.forall_mem_nil _⟩

/-- What is true of visible characters is true of the whole report exactly where it is true of all
that is shown. -/
theorem each_ofSchema_iff {s : Schema} (hn : ∀ f ∈ s.sortedFields, AllVisible f.name) :
    (∀ line ∈ (ofSchema s).out, line.Each P) ↔ ∀ t ∈ s.shownTexts, t.Each P := by
  have hfields : (∀ line ∈ s.sortedFields.map fieldLine, line.Each P) ↔
      ∀ t ∈ s.sortedFields.flatMap fun f => f.targetName :: f.linkTargets, t.Each P := by
    rw [List.forall_mem_map, List.forall_mem_flatMap]
    exact forall₂_congr fun f hf => each_fieldLine_iff hP (hn f hf)
  unfold ofSchema Schema.shownTexts
  rw [List.forall_mem_append, List.forall_mem_append, List.forall_mem_append,
    each_headLines_iff hP, hfields, and_iff_left (each_summaryLines hP hn),
    each_indexLines_iff hP, ← List.forall_mem_append, ← List.forall_mem_append]

end Each

end Report

/-! The layout -/

def Field.ShownBy (f : Field) (line : String) : Prop :=
  ∃ target markers, line = "  " ++ f.name ++ target ++ ": " ++ f.type.label ++ markers ∧
    (target = "" ∨ ∃ name, target = " as " ++ name)

/-- Three lines about the model, a line for each field in canonical order, three lines that sum the
fields up, and one line more if there is an index. -/
def Schema.ShownBy (s : Schema) (lines : List String) : Prop :=
  ∃ model fields index,
    lines = ["Model: " ++ model, "Fingerprint: " ++ s.fingerprint, "Fields:"] ++ fields ++
      ["Primary key: " ++ ofNames (s.primaryKey?.toList.map Field.name),
        "Foreign keys: " ++ ofNames (s.foreignKeys.map Field.name),
        "Connections: " ++ ofNames (s.connections.map fun c => c.1.name)] ++ index ∧
    List.Forall₂ Field.ShownBy s.sortedFields fields ∧
    if s.index.isEmpty then index = [] else ∃ line, index = ["Index: " ++ line]

/-! The lines themselves -/

def Field.shownMarkers (f : Field) : List String :=
  (if f.isPrimaryKey then ["pk"] else [])
    ++ (match f.reference with
      | some r => if f.isForeignKey then ["fk -> " ++ shown (.ofString r.target)] else []
      | none => [])
    ++ (match f.connection with
      | some c => [c.kind.label ++ " -> " ++ shown (.ofString c.target)]
      | none => [])

def Field.shownLine (f : Field) : String :=
  "  " ++ f.name ++ (if f.targetName = .ofString f.name then "" else " as " ++ shown f.targetName)
    ++ ": " ++ f.type.label
    ++ (if f.shownMarkers.isEmpty then ""
      else "  [" ++ String.intercalate ", " f.shownMarkers ++ "]")

def Index.shownLines (i : Index) : List String :=
  if i.isEmpty then []
  else
    let name : Text := match i.name with
      | some n => if n.isEmpty then "-" else n
      | none => "-"
    ["Index: " ++ shown name ++ " (" ++ String.intercalate ", " (i.fields.map shown) ++ ")"]

/-- The lines on a schema, with every text in its place as it is printed. -/
def Schema.shownLines (s : Schema) : List String :=
  ["Model: " ++ shown (.ofString s.name) ++ " (target: " ++ shown s.targetName ++ ")",
      "Fingerprint: " ++ s.fingerprint, "Fields:"]
    ++ s.sortedFields.map Field.shownLine
    ++ ["Primary key: " ++ ofNames (s.primaryKey?.toList.map Field.name),
      "Foreign keys: " ++ ofNames (s.foreignKeys.map Field.name),
      "Connections: " ++ ofNames (s.connections.map fun c => c.1.name)]
    ++ s.index.shownLines

theorem Field.shownBy_shownLine (f : Field) : f.ShownBy f.shownLine := by
  refine ⟨_, _, rfl, ?_⟩
  split
  · exact Or.inl rfl
  · exact Or.inr ⟨_, rfl⟩

theorem Schema.shownBy_shownLines (s : Schema) : s.ShownBy s.shownLines := by
  refine ⟨shown (.ofString s.name) ++ (" (target: " ++ (shown s.targetName ++ ")")),
    s.sortedFields.map Field.shownLine, s.index.shownLines, ?_, ?_, ?_⟩
  · simp only [shownLines, String.append_assoc]
  · rw [List.forall₂_map_right_iff, List.forall₂_same]
    exact fun f _ => f.shownBy_shownLine
  · unfold Index.shownLines
    split
    · rfl
    · simp only [String.append_assoc]
      exact ⟨_, rfl⟩

namespace Report

variable {s : Schema} {b : Breaks}

theorem length_of_shownBy {lines : List String} (h : s.ShownBy lines) :
    lines.length = (ofSchema s).out.length := by
  obtain ⟨model, fields, index, rfl, hfields, hindex⟩ := h
  have hindex : index.length = (indexLines s.index).length := by
    unfold indexLines
    split at hindex
    · next he => simp [he, hindex]
    · next he =>
      obtain ⟨line, rfl⟩ := hindex
      simp [he]
  simp [ofSchema, headLines, summaryLines, hfields.length_eq, hindex]

/-- Whatever sequence a text may start, what comes between texts is no part of it. -/
theorem shown_between {words : String} (hc : IsClosing (.ofString words)) (hw : IsKept words)
    (t u : Text) : shown (t ++ (.ofString words ++ u)) = shown t ++ (words ++ shown u) := by
  rw [(hc.append u).shown_append, shown_append hw]

theorem shown_end {words : String} (hc : IsClosing (.ofString words)) (hw : IsKept words)
    (t : Text) : shown (t ++ .ofString words) = shown t ++ words := by
  rw [hc.shown_append, shown_ofString hw]

theorem shown_join {between : String} (hc : IsClosing (.ofString between)) (hw : IsKept between)
    (ts : List Text) :
    shown (.join (.ofString between) ts) = String.intercalate between (ts.map shown) := by
  induction ts with
  | nil =>
    have hnil : shown (.ofString "") = "" := shown_ofString (by decide)
    exact hnil
  | cons t ts ih =>
    cases ts with
    | nil =>
      change shown ⟨List.intercalate _ [t.points]⟩ = String.intercalate between [shown t]
      rw [List.intercalate_singleton, String.intercalate_singleton]
    | cons t' ts =>
      simp only [List.map_cons] at ih ⊢
      rw [Text.join_cons_cons, shown_between hc hw, ih, String.intercalate_cons_cons,
        String.append_assoc]

theorem map_shown_markers (f : Field) :
    ((markers f).map Text.ofString).map shown = f.shownMarkers := by
  have hreference (target : String) :
      shown (.ofString ("fk -> " ++ target)) = "fk -> " ++ shown (.ofString target) := by
    rw [Text.ofString_append, shown_append (by decide)]
  have hconnection (c : Connection) : shown (.ofString (c.kind.label ++ " -> " ++ c.target)) =
      c.kind.label ++ " -> " ++ shown (.ofString c.target) := by
    have hkind := allVisible_append.2 ⟨allVisible_kind c.kind, (by decide : AllVisible " -> ")⟩
    rw [Text.ofString_append, shown_append hkind.isKept]
  have hkey : shown (.ofString "pk") = "pk" := shown_ofString (by decide)
  unfold markers Field.shownMarkers
  simp only [List.map_append]
  congr 1
  · congr 1
    · split <;> simp [hkey]
    · cases f.reference with
      | none => simp
      | some r => cases f.isForeignKey <;> simp [hreference]
  · cases f.connection with
    | none => simp
    | some c => simp [hconnection]

theorem shown_markerPart (f : Field) : shown (.ofString (markerPart f)) =
    if f.shownMarkers.isEmpty then ""
    else "  [" ++ String.intercalate ", " f.shownMarkers ++ "]" := by
  have hempty : (markers f).isEmpty = f.shownMarkers.isEmpty := by
    rw [← map_shown_markers, List.isEmpty_map, List.isEmpty_map]
  unfold markerPart
  rw [← hempty]
  split
  · exact shown_ofString (by decide)
  · rw [String.append_assoc, Text.ofString_append, shown_append (by decide), Text.ofString_append,
      shown_end (by decide) (by decide), Text.ofString_intercalate,
      shown_join (by decide) (by decide), map_shown_markers, String.append_assoc]

theorem shown_targetPart (f : Field) : shown (targetPart f) =
    if f.targetName = .ofString f.name then "" else " as " ++ shown f.targetName := by
  unfold targetPart
  split
  · exact shown_ofString (by decide)
  · exact shown_append (by decide) _

theorem shown_fieldLine {f : Field} (hn : AllVisible f.name) :
    shown (fieldLine f) = f.shownLine := by
  rw [fieldLine_eq, shown_append (allVisible_append.2 ⟨by decide, hn⟩).isKept,
    shown_between (by decide) (by decide), Text.ofString_append,
    shown_append (allVisible_type f.type).isKept, shown_targetPart, shown_markerPart]
  unfold Field.shownLine
  simp only [String.append_assoc]

theorem shown_words {words rest : String} (hw : AllVisible words) (hr : AllVisible rest) :
    shown (.ofString words ++ .ofString rest) = words ++ rest := by
  rw [shown_append hw.isKept, shown_ofString hr.isKept]

theorem map_shown_headLines (s : Schema) : (headLines s).map shown =
    ["Model: " ++ shown (.ofString s.name) ++ " (target: " ++ shown s.targetName ++ ")",
      "Fingerprint: " ++ s.fingerprint, "Fields:"] := by
  unfold headLines
  simp only [Text.append_assoc, List.map_cons, List.map_nil]
  rw [shown_append (by decide), shown_between (by decide) (by decide),
    shown_end (by decide) (by decide), shown_words (by decide) (allVisible_fingerprint s),
    shown_ofString (show IsKept "Fields:" by decide)]
  simp only [String.append_assoc]

theorem map_shown_summaryLines (hn : ∀ f ∈ s.sortedFields, AllVisible f.name) :
    (summaryLines s).map shown =
      ["Primary key: " ++ ofNames (s.primaryKey?.toList.map Field.name),
        "Foreign keys: " ++ ofNames (s.foreignKeys.map Field.name),
        "Connections: " ++ ofNames (s.connections.map fun c => c.1.name)] := by
  obtain ⟨hkey, hforeign, hconnections⟩ := allVisible_summary hn
  unfold summaryLines
  simp only [List.map_cons, List.map_nil]
  rw [shown_words (by decide) hkey, shown_words (by decide) hforeign,
    shown_words (by decide) hconnections]

theorem map_shown_indexLines (i : Index) : (indexLines i).map shown = i.shownLines := by
  unfold indexLines Index.shownLines
  split
  · rfl
  · simp only [Text.append_assoc, List.map_singleton]
    rw [shown_append (by decide), shown_between (by decide) (by decide),
      shown_end (by decide) (by decide), shown_join (by decide) (by decide)]
    have hassoc (a b c d e : String) : a ++ (b ++ (c ++ (d ++ e))) = a ++ b ++ c ++ d ++ e := by
      simp only [String.append_assoc]
    exact congrArg (fun t => [t]) (hassoc ..)

theorem map_shown_ofSchema (hn : ∀ f ∈ s.sortedFields, AllVisible f.name) :
    (ofSchema s).out.map shown = s.shownLines := by
  unfold ofSchema Schema.shownLines
  rw [List.map_append, List.map_append, List.map_append, map_shown_headLines,
    map_shown_summaryLines hn, map_shown_indexLines, List.map_map]
  have hfields : s.sortedFields.map (shown ∘ fieldLine) = s.sortedFields.map Field.shownLine :=
    List.map_congr_left fun f hf => shown_fieldLine (hn f hf)
  rw [hfields]

/-! The output -/

theorem isEnded_words {words rest : String} (hw : AllVisible words) (hr : AllVisible rest) :
    IsEnded (.ofString words ++ .ofString rest) := by
  rw [← Text.ofString_append]
  exact isEnded_ofString (allVisible_append.2 ⟨hw, hr⟩).isKept

theorem isEnded_fieldLine (f : Field) : IsEnded (fieldLine f) := by
  rw [fieldLine_eq]
  unfold markerPart
  -- The line ends with the type, or with the bracket after the markers.
  split
  · have hclosing : IsClosing (.ofString (": " ++ f.type.label)) := by
      rw [Text.ofString_append]
      exact IsClosing.append (by decide) _
    rw [String.append_empty, ← Text.ofString_append, ← Text.append_assoc]
    exact isEnded_append hclosing
      (allVisible_append.2 ⟨by decide, allVisible_type f.type⟩).isKept _
  · simp only [Text.ofString_append, ← Text.append_assoc]
    exact isEnded_append (by decide) (by decide) _

theorem isEnded_ofSchema (hn : ∀ f ∈ s.sortedFields, AllVisible f.name) :
    ∀ line ∈ (ofSchema s).out, IsEnded line := by
  obtain ⟨hkey, hforeign, hconnections⟩ := allVisible_summary hn
  unfold ofSchema headLines summaryLines indexLines
  simp only [List.forall_mem_append, List.forall_mem_cons, List.forall_mem_map]
  refine ⟨⟨⟨⟨?_, ?_, ?_, List.forall_mem_nil _⟩, fun f _ => isEnded_fieldLine f⟩,
    isEnded_words (by decide) hkey, isEnded_words (by decide) hforeign,
    isEnded_words (by decide) hconnections, List.forall_mem_nil _⟩, ?_⟩
  · exact isEnded_append (by decide) (by decide) _
  · exact isEnded_words (by decide) (allVisible_fingerprint s)
  · exact isEnded_ofString (by decide)
  · split
    · exact List.forall_mem_nil _
    · exact List.forall_mem_singleton.2 (isEnded_append (by decide) (by decide) _)

theorem ofCharacters_shownTexts (hs : s.OfCharacters)
    (hn : ∀ f ∈ s.sortedFields, AllVisible f.name) : ∀ t ∈ s.shownTexts, t.OfCharacters := by
  have hlines := ofCharacters_ofSchema hs
  simp only [Text.ofCharacters_iff] at hlines ⊢
  exact (each_ofSchema_iff (fun c _ => ⟨c, rfl⟩) hn).1 hlines

theorem output_ofSchema (hn : ∀ f ∈ s.sortedFields, AllVisible f.name)
    (hc : ∀ t ∈ s.shownTexts, t.OfCharacters) :
    ∃ stdout, (ofSchema s).output = .ok ⟨0, stdout, ""⟩ ∧
      ∀ b, (s.ShownBy (linesOf b stdout) ↔ ∀ t ∈ s.shownTexts, t.IsSingleLine b) ∧
        (linesOf b stdout = s.shownLines ↔ ∀ t ∈ s.shownTexts, t.IsSingleLine b) := by
  have hended := isEnded_ofSchema hn
  have hchars : ∀ line ∈ (ofSchema s).out, line.OfCharacters := by
    simp only [Text.ofCharacters_iff] at hc ⊢
    exact (each_ofSchema_iff (fun c _ => ⟨c, rfl⟩) hn).2 hc
  refine ⟨_, output_eq hchars, fun b => ?_⟩
  have hlines : (∀ line ∈ (ofSchema s).out, line.IsSingleLine b) ↔
      ∀ t ∈ s.shownTexts, t.IsSingleLine b := each_ofSchema_iff b.visible hn
  rw [← hlines]
  have hsingle : s.ShownBy (linesOf b (.ofList (body (ofSchema s).out))) →
      ∀ line ∈ (ofSchema s).out, line.IsSingleLine b :=
    fun h => (length_linesOf_body hended).1 (length_of_shownBy h)
  have hexact : (∀ line ∈ (ofSchema s).out, line.IsSingleLine b) →
      linesOf b (.ofList (body (ofSchema s).out)) = s.shownLines := by
    intro h
    rw [linesOf_body hended h, map_shown_ofSchema hn]
  constructor
  · exact ⟨hsingle, fun h => hexact h ▸ s.shownBy_shownLines⟩
  · exact ⟨fun h => hsingle (h ▸ s.shownBy_shownLines), hexact⟩

end Report

namespace Command

variable {depth : Depth} {files : Files} {p : Path} {s : Schema}

/-- A schema is shown where there are no surrogates in what is shown of it. There is a line for each
field, and no others than there should be, exactly where no line ends within what is shown, whatever
is taken for the end of a line; and there the lines say what they should. -/
theorem shows_line_per_field (h : load depth files p = .ok s)
    (hn : ∀ n ∈ s.fieldNames, IsIdentifier n) (hc : ∀ t ∈ s.shownTexts, t.OfCharacters) :
    ∃ stdout, (inspect p).run depth files = .ok ⟨0, stdout, ""⟩ ∧
      ∀ b, (s.ShownBy (linesOf b stdout) ↔ ∀ t ∈ s.shownTexts, t.IsSingleLine b) ∧
        (linesOf b stdout = s.shownLines ↔ ∀ t ∈ s.shownTexts, t.IsSingleLine b) := by
  have hvisible := allVisible_of_fieldNames hn
  obtain ⟨stdout, hout, hlines⟩ := output_ofSchema hvisible hc
  refine ⟨stdout, ?_, hlines⟩
  rw [run_inspect h, hout]
  rfl

def filesWithPost : Files := fun _ => .ok (some (Snapshot.bytes Snapshot.post))

theorem load_filesWithPost (depth : Depth) (p : Path) :
    load depth filesWithPost p = .ok Snapshot.post :=
  load_of_file rfl (Snapshot.load_bytes Snapshot.obtained_post.normal Snapshot.ofCharacters_post
    Snapshot.hasShortLimits_post depth p)

theorem isIdentifier_of_isName {n : String} (h : Field.isName n = true)
    (hline : n.toList.contains '\n' = false) : IsIdentifier n := by
  obtain ⟨t, ht, rfl | rfl⟩ := Field.isName_iff.1 h
  · exact ht
  · simp at hline

theorem isIdentifier_post : ∀ n ∈ Snapshot.post.fieldNames, IsIdentifier n := by
  have hall : ∀ f ∈ Snapshot.post.fields.values, IsIdentifier f.name := by
    simp only [Snapshot.post, Entries.values, List.map_cons, List.map_nil, List.forall_mem_cons]
    exact ⟨isIdentifier_of_isName (by decide) (by decide),
      isIdentifier_of_isName (by decide) (by decide), List.forall_mem_nil _⟩
  intro n hn
  obtain ⟨f, hf, rfl⟩ := List.mem_map.1 hn
  exact hall f (Schema.mem_sortedFields_iff.1 hf)

theorem isSingleLine_post : ∀ t ∈ Snapshot.post.shownTexts, t.IsSingleLine .unicode := by
  have hall : ∀ f ∈ Snapshot.post.fields.values, ∀ t ∈ f.targetName :: f.linkTargets,
      t.IsSingleLine .unicode := by decide +kernel
  unfold Schema.shownTexts
  rw [List.forall_mem_append, List.forall_mem_append, List.forall_mem_flatMap]
  exact ⟨⟨by decide +kernel, fun f hf => hall f (Schema.mem_sortedFields_iff.1 hf)⟩,
    by decide +kernel⟩

theorem shows_line_per_field_post :
    load .standard filesWithPost Snapshot.defaultPath = .ok Snapshot.post ∧
      ∃ stdout, (inspect Snapshot.defaultPath).run .standard filesWithPost =
          .ok ⟨0, stdout, ""⟩ ∧
        linesOf .unicode stdout = Snapshot.post.shownLines := by
  have hc := ofCharacters_shownTexts Snapshot.ofCharacters_post
    (allVisible_of_fieldNames isIdentifier_post)
  have hl := load_filesWithPost .standard Snapshot.defaultPath
  obtain ⟨stdout, hrun, hlines⟩ := shows_line_per_field hl isIdentifier_post hc
  exact ⟨hl, stdout, hrun, (hlines _).2.2 isSingleLine_post⟩

/-! A line in the name of a model -/

def forgedName : String := "Post\nFields:"

def filesWithForgedName : Files := fun _ => .ok (some (Snapshot.bytes (Difference.bare forgedName)))

/-- The name of a model is shown as two lines, of which the second one is like one of the report. -/
theorem line_feed_in_model_name_shown :
    load .standard filesWithForgedName Snapshot.defaultPath = .ok (Difference.bare forgedName) ∧
      ∃ stdout, (inspect Snapshot.defaultPath).run .standard filesWithForgedName =
          .ok ⟨0, stdout, ""⟩ ∧
        ¬ (Difference.bare forgedName).ShownBy (linesOf .lineFeeds stdout) := by
  have hn : ∀ f ∈ (Difference.bare forgedName).sortedFields, AllVisible f.name :=
    fun f hf => absurd (Schema.mem_sortedFields_iff.1 hf) List.not_mem_nil
  have hc := ofCharacters_shownTexts (Difference.bare_ofCharacters forgedName) hn
  have hl : load .standard filesWithForgedName Snapshot.defaultPath =
      .ok (Difference.bare forgedName) :=
    load_of_file rfl (Difference.load_bare (by decide) _ _)
  obtain ⟨stdout, hout, hlines⟩ := output_ofSchema hn hc
  refine ⟨hl, stdout, ?_, ?_⟩
  · rw [run_inspect hl, hout]
    rfl
  · rw [(hlines _).1]
    intro hsingle
    have hname : (Text.ofString forgedName).IsSingleLine .lineFeeds :=
      hsingle _ (by simp [Schema.shownTexts, Difference.bare])
    exact absurd hname (by decide)

end Command

end CanonicalSchema
