import CanonicalSchema.Proofs.ConstructedSchema
import CanonicalSchema.Proofs.ConstructionPaths
import Mathlib.Data.List.TakeWhile

/-!
Which names fields have. A description that is otherwise valid is accepted exactly where its name
is an identifier, or an identifier with one line feed after it; and these are the names of the
fields of schemas, however they came about.
-/

namespace CanonicalSchema

open Checked

/-- A letter or an underscore, and after it at most 63 letters, digits and underscores; nothing but
ASCII. -/
def IsIdentifier (s : String) : Prop :=
  ∃ c cs, s.toList = c :: cs ∧ (c.isAlpha = true ∨ c = '_') ∧ cs.length ≤ 63 ∧
    ∀ d ∈ cs, d.isAlphanum = true ∨ d = '_'

/-- An identifier that a line feed may follow. -/
def IsIdentifierLine (s : String) : Prop := ∃ t, IsIdentifier t ∧ (s = t ∨ s = t ++ "\n")

theorem not_isIdentifier_append_newline (t : String) : ¬ IsIdentifier (t ++ "\n") := by
  rintro ⟨c, cs, hs, hc, -, hcs⟩
  have hlast : '\n' ∈ c :: cs := by
    rw [← hs, String.toList_append]
    exact List.mem_append_right _ (List.mem_singleton_self _)
  rcases List.mem_cons.1 hlast with rfl | hmem
  · exact absurd hc (by decide)
  · exact absurd (hcs _ hmem) (by decide)

namespace Field

/-! The test of a name -/

theorem isNameStart_iff {c : Char} : isNameStart c = true ↔ c.isAlpha = true ∨ c = '_' := by
  unfold isNameStart Char.isAlpha Char.isUpper Char.isLower
  simp [Char.le_def]

theorem isNamePart_iff {c : Char} : isNamePart c = true ↔ c.isAlphanum = true ∨ c = '_' := by
  have hdigit : Digits.isDigit c = c.isDigit := by
    simp [Digits.isDigit, Char.isDigit, Char.le_def]
  unfold isNamePart Char.isAlphanum
  rw [hdigit, Bool.or_eq_true, isNameStart_iff, Bool.or_eq_true, or_right_comm]

theorem span_append {cs after : List Char} (hcs : ∀ d ∈ cs, isNamePart d = true)
    (hafter : after = [] ∨ after = ['\n']) :
    (cs ++ after).takeWhile isNamePart = cs ∧ (cs ++ after).dropWhile isNamePart = after := by
  rw [List.takeWhile_append_of_pos hcs, List.dropWhile_append_of_pos hcs]
  rcases hafter with rfl | rfl
  · exact ⟨List.append_nil cs, rfl⟩
  · exact ⟨List.append_nil cs, rfl⟩

theorem isName_iff_toList {s : String} :
    isName s = true ↔ ∃ c cs after, s.toList = c :: (cs ++ after) ∧ isNameStart c = true ∧
      cs.length ≤ 63 ∧ (∀ d ∈ cs, isNamePart d = true) ∧ (after = [] ∨ after = ['\n']) := by
  unfold isName
  constructor
  · intro h
    split at h
    · contradiction
    · next c rest hs =>
      simp only [Bool.and_eq_true, Bool.or_eq_true, decide_eq_true_eq, beq_iff_eq] at h
      refine ⟨c, rest.takeWhile isNamePart, rest.dropWhile isNamePart, ?_, h.1.1, h.1.2, ?_, h.2⟩
      · rw [List.takeWhile_append_dropWhile, hs]
      · exact fun d hd => List.mem_takeWhile_imp hd
  · rintro ⟨c, cs, after, hs, hc, hlength, hcs, hafter⟩
    obtain ⟨htake, hdrop⟩ := span_append hcs hafter
    simp only [hs, htake, hdrop, Bool.and_eq_true, Bool.or_eq_true, decide_eq_true_eq, beq_iff_eq]
    exact ⟨⟨hc, hlength⟩, hafter⟩

theorem isName_iff {s : String} : isName s = true ↔ IsIdentifierLine s := by
  simp only [isName_iff_toList, isNameStart_iff, isNamePart_iff]
  constructor
  · rintro ⟨c, cs, after, hs, hc, hlength, hcs, hafter⟩
    refine ⟨.ofList (c :: cs), ⟨c, cs, String.toList_ofList, hc, hlength, hcs⟩, ?_⟩
    rw [← String.toList_inj, ← String.toList_inj, String.toList_append, String.toList_ofList, hs]
    rcases hafter with rfl | rfl
    · exact Or.inl (by rw [List.append_nil])
    · exact Or.inr rfl
  · rintro ⟨t, ⟨c, cs, ht, hc, hlength, hcs⟩, rfl | rfl⟩
    · exact ⟨c, cs, [], by rw [ht, List.append_nil], hc, hlength, hcs, Or.inl rfl⟩
    · refine ⟨c, cs, ['\n'], ?_, hc, hlength, hcs, Or.inr rfl⟩
      rw [String.toList_append, ht]
      rfl

theorem ne_empty_of_isName {s : String} (h : isName s = true) : s ≠ "" := by
  rintro rfl
  contradiction

/-! A description under another name -/

/-- A description of a field with the given name in it, whatever name it had. -/
def named (ms : Entries Text Json) (name : Text) : Json := .obj (ms.put "name" (.str name))

/-- A description that is accepted under some name, so that nothing else is wrong with it. -/
def OtherwiseValid (ms : Entries Text Json) : Prop := ∃ name f, check (named ms name) = accepted f

variable {ms : Entries Text Json} {f : Field} {name : Text} {n : String}

theorem keys_normalize_subset_iff : (normalize ms).keys ⊆ labels ↔ ms.keys ⊆ labels := by
  have hput : ∀ (es : Entries Text Json) (k : Text) (j : Json), k ∈ labels →
      ((es.put k j).keys ⊆ labels ↔ es.keys ⊆ labels) := by
    intro es k j hk
    rw [Entries.keys_put]
    split
    · rfl
    · simp [hk]
  have hdefault : (defaultTo "target_name" "name" ms).keys ⊆ labels ↔ ms.keys ⊆ labels := by
    unfold defaultTo
    split
    · split
      · exact hput _ _ _ (by decide)
      · rfl
    · rfl
  unfold normalize
  simp only
  split
  · rw [hput _ _ _ (by decide), hdefault]
  · exact hdefault

theorem keys_put_name (ms : Entries Text Json) (j j' : Json) :
    (ms.put "name" j).keys = (ms.put "name" j').keys := by
  rw [Entries.keys_put, Entries.keys_put]

theorem isName_of_check_named (h : check (named ms name) = accepted f) :
    name = .ofString f.name ∧ isName f.name = true := by
  obtain ⟨_, hms, -, hm, -⟩ := check_eq_accepted_iff.1 h
  cases hms
  obtain ⟨j, hget, hj⟩ := required_eq_accepted_iff.1 (checkMembers_eq_accepted_iff.1 hm).1
  rw [get?_normalize_of_ne (by decide) (by decide), Entries.get?_put_self] at hget
  cases hget
  obtain ⟨hstr, -, hname⟩ := checkName_eq_accepted_iff.1 hj
  exact ⟨Json.str.inj hstr, hname⟩

theorem get?_normalize_named {k : Text} (hn : k ≠ .ofString "name")
    (ht : k ≠ .ofString "target_name") (j : Json) :
    (normalize (ms.put "name" j)).get? k = (normalize ms).get? k := by
  rw [get?_normalize ht, get?_normalize ht, Entries.get?_put_of_ne ms j hn,
    Entries.get?_put_of_ne ms j (by decide)]

theorem required_named {α : Type} {label : String} {c : Json → Checked α}
    (hn : Text.ofString label ≠ .ofString "name")
    (ht : Text.ofString label ≠ .ofString "target_name") (j : Json) :
    required (normalize (ms.put "name" j)) label c = required (normalize ms) label c :=
  required_congr (get?_normalize_named hn ht j)

theorem defaulted_named {α : Type} {label : String} {c : Json → Checked α} {default : α}
    (hn : Text.ofString label ≠ .ofString "name")
    (ht : Text.ofString label ≠ .ofString "target_name") (j : Json) :
    defaulted (normalize (ms.put "name" j)) label default c =
      defaulted (normalize ms) label default c :=
  defaulted_congr (get?_normalize_named hn ht j)

theorem targetName_named {target : Text} (hn : n ≠ "") (hname : name.isEmpty = false)
    (h : defaulted (normalize (ms.put "name" (.str name))) "target_name" (Text.ofString "") text =
      accepted target) :
    ∃ t, defaulted (normalize (ms.put "name" (.str n))) "target_name" (Text.ofString "") text =
      accepted t := by
  have hget (m : Text) (hm : m.isEmpty = false) :
      (normalize (ms.put "name" (.str m))).get? "target_name" =
        if isBlankAt ms "target_name" then some (.str m) else ms.get? "target_name" := by
    have hother : (ms.put "name" (.str m)).get? "target_name" = ms.get? "target_name" :=
      Entries.get?_put_of_ne _ _ (by decide)
    have hgiven : (ms.put "name" (.str m)).get? "name" = some (.str m) :=
      Entries.get?_put_self _ _ _
    rw [get?_normalize_targetName hgiven hm]
    unfold isBlankAt
    rw [hother]
  unfold defaulted at h ⊢
  rw [hget _ hname] at h
  rw [hget _ (Text.isEmpty_ofString hn)]
  by_cases hb : isBlankAt ms "target_name" = true
  · rw [if_pos hb]
    exact ⟨_, rfl⟩
  · rw [if_neg hb] at h ⊢
    exact ⟨target, h⟩

theorem brokenRule?_renamed (f : Field) (n : String) (t : Text) :
    brokenRule? { f with name := n, targetName := t } = none ↔ brokenRule? f = none := by
  unfold brokenRule?
  cases f.reference with
  | none => rfl
  | some r =>
    cases f.connection with
    | none => rfl
    | some c => by_cases hk : r.kind = .belongsTo <;> simp [hk]

/-- The attributes that are accepted beside one name are accepted beside every other one that passes
the test, though the target name may follow the name. -/
theorem checkMembers_named (hn : isName n = true) (hname : isName f.name = true)
    (h : checkMembers (normalize (ms.put "name" (.str f.name))) = accepted f) :
    ∃ t, checkMembers (normalize (ms.put "name" (.str n))) =
      accepted { f with name := n, targetName := t } := by
  obtain ⟨-, htarget, htype, htargetType, hrequired, harray, henum, hkey, hreference, hconnection,
    hknown⟩ := checkMembers_eq_accepted_iff.1 h
  obtain ⟨t, ht⟩ := targetName_named (ne_empty_of_isName hn)
    (Text.isEmpty_ofString (ne_empty_of_isName hname)) htarget
  have hsame {α : Type} {label : String} {c : Json → Checked α} {default a : α}
      (hn : Text.ofString label ≠ .ofString "name")
      (ht : Text.ofString label ≠ .ofString "target_name")
      (h : defaulted (normalize (ms.put "name" (.str f.name))) label default c = accepted a) :
      defaulted (normalize (ms.put "name" (.str n))) label default c = accepted a := by
    rw [defaulted_named hn ht] at h ⊢
    exact h
  refine ⟨t, checkMembers_eq_accepted_iff.2 ⟨?_, ht, ?_, ?_, ?_, ?_, ?_, ?_, ?_, ?_, ?_⟩⟩
  · refine required_eq_accepted_iff.2 ⟨.str n, ?_, ?_⟩
    · rw [get?_normalize_of_ne (by decide) (by decide), Entries.get?_put_self]
    · exact checkName_eq_accepted_iff.2 ⟨rfl, ne_empty_of_isName hn, hn⟩
  · rw [required_named (by decide) (by decide)] at htype ⊢
    exact htype
  · exact hsame (by decide) (by decide) htargetType
  · exact hsame (by decide) (by decide) hrequired
  · exact hsame (by decide) (by decide) harray
  · exact hsame (by decide) (by decide) henum
  · exact hsame (by decide) (by decide) hkey
  · exact hsame (by decide) (by decide) hreference
  · exact hsame (by decide) (by decide) hconnection
  · rw [keys_normalize_subset_iff] at hknown ⊢
    rw [keys_put_name ms (.str n) (.str f.name)]
    exact hknown

theorem OtherwiseValid.check_named (h : OtherwiseValid ms) (hn : isName n = true) :
    ∃ f, check (named ms n) = accepted f := by
  obtain ⟨name, f, hf⟩ := h
  obtain ⟨rfl, hname⟩ := isName_of_check_named hf
  obtain ⟨_, hms, hlabels, hm, hrule⟩ := check_eq_accepted_iff.1 hf
  cases hms
  obtain ⟨t, ht⟩ := checkMembers_named hn hname hm
  rw [keys_put_name ms (.str f.name) (.str n)] at hlabels
  exact ⟨_, check_eq_accepted_iff.2 ⟨_, rfl, hlabels, ht, (brokenRule?_renamed f n t).2 hrule⟩⟩

theorem OtherwiseValid.accepts_iff (h : OtherwiseValid ms) :
    (∃ f, check (named ms name) = accepted f) ↔ ∃ n, name = .ofString n ∧ IsIdentifierLine n := by
  constructor
  · rintro ⟨f, hf⟩
    obtain ⟨hname, hn⟩ := isName_of_check_named hf
    exact ⟨f.name, hname, isName_iff.1 hn⟩
  · rintro ⟨n, rfl, hn⟩
    exact h.check_named (isName_iff.2 hn)

/-- The names that are accepted are the identifiers, unless there is a line feed after one. -/
theorem OtherwiseValid.identifiers_iff (h : OtherwiseValid ms) :
    ((∃ f, check (named ms name) = accepted f) ↔ ∃ n, name = .ofString n ∧ IsIdentifier n) ↔
      ¬ ∃ t, IsIdentifier t ∧ name = .ofString (t ++ "\n") := by
  rw [h.accepts_iff]
  constructor
  · rintro hiff ⟨t, ht, rfl⟩
    obtain ⟨n, hn, hident⟩ := hiff.1 ⟨_, rfl, t, ht, Or.inr rfl⟩
    rw [← Text.ofString_inj.1 hn] at hident
    exact not_isIdentifier_append_newline t hident
  · intro hline
    constructor
    · rintro ⟨n, rfl, t, ht, rfl | rfl⟩
      · exact ⟨_, rfl, ht⟩
      · exact absurd ⟨t, ht, rfl⟩ hline
    · rintro ⟨n, rfl, hn⟩
      exact ⟨n, rfl, n, hn, Or.inl rfl⟩

end Field

/-! The fields of schemas -/

namespace Schema

variable {s : Schema} {n : String}

theorem Constructed.isIdentifierLine (h : s.Constructed) (hn : n ∈ s.fieldNames) :
    IsIdentifierLine n := by
  obtain ⟨f, hf, rfl⟩ := List.mem_map.1 hn
  obtain ⟨e, he, rfl⟩ := List.mem_map.1 (mem_sortedFields_iff.1 hf)
  exact Field.isName_iff.1 (h.normal.fields e he).name

def idField (n : String) : Field := ⟨n, n, .id, none, false, false, false, false, none, none⟩

def withField (n : String) : Schema where
  name := "Post"
  targetName := "Post"
  fields := [(.ofString n, idField n)]
  index := .empty

def partsWithField (n : String) : Parts where
  name := .str "Post"
  targetName := .null
  fields := [(.ofString n, (idField n).toJson)]
  index := .empty

theorem mem_fieldNames_withField (n : String) : n ∈ (withField n).fieldNames := by
  have hmem : idField n ∈ (withField n).fields.values := List.mem_singleton_self _
  exact List.mem_map_of_mem (mem_sortedFields_iff.2 hmem)

theorem normal_idField (hn : IsIdentifierLine n) : (idField n).Normal := by
  have hname : Field.isName n = true := Field.isName_iff.2 hn
  exact ⟨hname, Text.isEmpty_ofString (Field.ne_empty_of_isName hname), nofun, rfl, nofun, nofun⟩

theorem wellFormed_withField (n : String) : (withField n).WellFormed :=
  ⟨rfl, List.nodup_singleton _, List.nodup_singleton _, Nat.zero_le 1⟩

theorem normal_withField (hn : IsIdentifierLine n) : (withField n).Normal := by
  constructor
  case wellFormed => exact wellFormed_withField n
  case name => exact (by decide : "Post" ≠ "")
  case targetName => exact Text.isEmpty_ofString (by decide : "Post" ≠ "")
  case fields =>
    intro e he
    obtain rfl := List.mem_singleton.1 he
    exact normal_idField hn

theorem build_withField (hn : IsIdentifierLine n) (depth : Depth) :
    (partsWithField n).description.build depth = .ok (withField n) := by
  have hd : (partsWithField n).fields.keys.Nodup := List.nodup_singleton _
  have hrules : brokenRule? (withField n) = none :=
    (wellFormed_iff (wellFormed_withField n).keys_nodup).1 (wellFormed_withField n)
  rw [Parts.build_iff hd]
  refine ⟨⟨rfl, (normal_withField hn).name, rfl, rfl, hrules⟩, ?_⟩
  exact .cons ⟨rfl, (normal_idField hn).check_toJson⟩ .nil

theorem ofCharacters_withField (n : String) : (withField n).OfCharacters := by
  simp [OfCharacters, withField, idField, toJson, Field.toJson, Index.toJson, Index.empty,
    Json.ofOption, Json.texts]

theorem hasShortLimits_withField (n : String) : (withField n).HasShortLimits := by
  simp [HasShortLimits, withField, idField, toJson, Field.toJson, Index.toJson, Index.empty,
    Json.ofOption]

theorem load_withField (hn : IsIdentifierLine n) (depth : Depth) (p : Path) :
    Snapshot.load depth p (Snapshot.bytes (withField n)) = .ok (withField n) :=
  Snapshot.load_bytes (normal_withField hn) (ofCharacters_withField n) (hasShortLimits_withField n)
    depth p

end Schema

/-- A name is accepted where it is an identifier or one with a line feed after it, so that it is no
identifier exactly in the second case; and such are the names of the fields of all schemas, also of
those that are built at once and of those that are loaded. -/
theorem fieldNames_are_identifierLines {ms : Entries Text Json} (h : Field.OtherwiseValid ms)
    (depth : Depth) (name : Text) (n : String) :
    (((∃ f, Field.check (Field.named ms name) = accepted f) ↔
        ∃ n, name = .ofString n ∧ IsIdentifierLine n) ∧
      (((∃ f, Field.check (Field.named ms name) = accepted f) ↔
          ∃ n, name = .ofString n ∧ IsIdentifier n) ↔
        ¬ ∃ t, IsIdentifier t ∧ name = .ofString (t ++ "\n"))) ∧
    ((∃ s : Schema, s.Constructed ∧ n ∈ s.fieldNames) ↔ IsIdentifierLine n) ∧
    ((∃ (d : Description) (s : Schema), d.FromJson ∧ d.build depth = .ok s ∧ n ∈ s.fieldNames) ↔
      IsIdentifierLine n) ∧
    ((∃ p bytes s, Snapshot.load depth p bytes = .ok s ∧ n ∈ s.fieldNames) ↔
      IsIdentifierLine n) := by
  have hbuilt (hn : IsIdentifierLine n) := Schema.build_withField hn depth
  have hfrom : (Schema.partsWithField n).description.FromJson :=
    Description.fromJson_of_loose rfl
  have hmem := Schema.mem_fieldNames_withField n
  refine ⟨⟨h.accepts_iff, h.identifiers_iff⟩, ⟨?_, ?_⟩, ⟨?_, ?_⟩, ⟨?_, ?_⟩⟩
  · rintro ⟨s, hs, hn⟩
    exact hs.isIdentifierLine hn
  · exact fun hn => ⟨_, .built hfrom (hbuilt hn), hmem⟩
  · rintro ⟨d, s, hd, hb, hn⟩
    exact (Schema.Constructed.built hd hb).isIdentifierLine hn
  · exact fun hn => ⟨_, _, hfrom, hbuilt hn, hmem⟩
  · rintro ⟨p, bytes, s, hl, hn⟩
    exact (Schema.Constructed.loaded hl).isIdentifierLine hn
  · exact fun hn => ⟨Snapshot.defaultPath, _, _, Schema.load_withField hn depth _, hmem⟩

def tagsMembers : Entries Text Json := [
  ("declared_type", .str "enum"), ("is_array", .str "on"), ("target_name", .null)]

theorem otherwiseValid_tags : Field.OtherwiseValid tagsMembers :=
  ⟨"tags", ⟨"tags", "tags", .enum, none, false, true, true, false, none, none⟩, by decide +kernel⟩

theorem fieldNames_are_identifierLines_tags :
    Field.OtherwiseValid tagsMembers ∧
      (∃ f, Field.check (Field.named tagsMembers "tags") = accepted f) ∧
      ¬ (∃ f, Field.check (Field.named tagsMembers "2nd tags") = accepted f) ∧
      ∃ s : Schema, s.Constructed ∧ "tags" ∈ s.fieldNames := by
  have hline : IsIdentifierLine "tags" := Field.isName_iff.1 (by decide)
  have hnames := fieldNames_are_identifierLines otherwiseValid_tags .standard
  refine ⟨otherwiseValid_tags, ?_, ?_, (hnames "tags" "tags").2.1.2 hline⟩
  · exact (hnames "tags" "tags").1.1.2 ⟨"tags", rfl, hline⟩
  · rw [(hnames "2nd tags" "2nd tags").1.1]
    rintro ⟨n, hn, hspelled⟩
    rw [← Text.ofString_inj.1 hn, ← Field.isName_iff] at hspelled
    exact absurd hspelled (by decide)

theorem line_feed_accepted :
    Field.OtherwiseValid tagsMembers ∧
      (∃ f, Field.check (Field.named tagsMembers "tags\n") = accepted f) ∧
      ¬ IsIdentifier "tags\n" ∧
      (Schema.partsWithField "tags\n").description.build .standard =
        .ok (Schema.withField "tags\n") ∧
      ∃ bytes, Snapshot.load .standard Snapshot.defaultPath bytes =
        .ok (Schema.withField "tags\n") := by
  have hline : IsIdentifierLine "tags\n" := Field.isName_iff.1 (by decide)
  refine ⟨otherwiseValid_tags, ?_, ?_, ?_, ?_⟩
  · exact otherwiseValid_tags.check_named (Field.isName_iff.2 hline)
  · exact not_isIdentifier_append_newline "tags"
  · exact Schema.build_withField hline .standard
  · exact ⟨_, Schema.load_withField hline .standard _⟩

end CanonicalSchema
