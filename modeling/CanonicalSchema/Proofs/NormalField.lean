import CanonicalSchema.Field.Check
import CanonicalSchema.Proofs.Acceptance
import CanonicalSchema.Proofs.Entries

/-!
Fields in normal form. Every field that is accepted is in normal form, and a field in normal form
is accepted as itself: the defaults that are filled in before the check change nothing in it.
-/

namespace CanonicalSchema

open Checked

/-! Records that are written with every label -/

/-- Members that are under the given labels, each once and in this order. -/
structure Labelled (ms : Entries Text Json) (labels : List Text) : Prop where
  keys : ms.keys = labels
  nodup : labels.Nodup
  areCharacters : ∀ l ∈ labels, l.string?.isSome

namespace Labelled

variable {α : Type} {ms : Entries Text Json} {labels : List Text} {label : String} {j : Json}
  {check : Json → Checked α} {a : α}

theorem get? (h : Labelled ms labels) (i : Nat) (hi : ms[i]? = some ((label : Text), j)) :
    ms.get? label = some j := by
  refine Entries.get?_of_mem ?_ (List.mem_of_getElem? hi)
  rw [h.keys]
  exact h.nodup

theorem required (h : Labelled ms labels) (i : Nat) (hi : ms[i]? = some ((label : Text), j))
    (hc : check j = accepted a) : Checked.required ms label check = accepted a :=
  required_eq_accepted_iff.2 ⟨j, h.get? i hi, hc⟩

theorem defaulted (h : Labelled ms labels) (i : Nat) (hi : ms[i]? = some ((label : Text), j))
    {default : α} (hc : check j = accepted a) :
    Checked.defaulted ms label default check = accepted a :=
  defaulted_eq_accepted_iff.2 (Or.inl ⟨j, h.get? i hi, hc⟩)

theorem subset (h : Labelled ms labels) : ms.keys ⊆ labels := by
  rw [h.keys]
  exact List.Subset.refl labels

theorem characters (h : Labelled ms labels) : ∀ l ∈ ms.keys, l.string?.isSome := by
  rw [h.keys]
  exact h.areCharacters

end Labelled

/-! Attributes that may be left out -/

section Optional

variable {α : Type} {ms : Entries Text Json} {label : String} {check : Json → Checked α} {a : α}

theorem check_of_given {j : Json} {default : α} (hg : ms.get? label = some j)
    (h : defaulted ms label default check = accepted a) : check j = accepted a := by
  obtain ⟨j', hj', hc⟩ | ⟨hnone, -⟩ := defaulted_eq_accepted_iff.1 h
  · cases hg.symm.trans hj'
    exact hc
  · rw [hg] at hnone
    contradiction

theorem exists_of_nullable
    (h : defaulted ms label none (nullable check) = accepted (some a)) :
    ∃ j, check j = accepted a := by
  obtain ⟨j, -, hj⟩ | ⟨-, hnone⟩ := defaulted_eq_accepted_iff.1 h
  · exact ⟨j, (nullable_eq_some_iff.1 hj).2⟩
  · contradiction

end Optional

/-! The attributes of a field -/

theorem LinkKind.label_inj {k k' : LinkKind} (h : k.label = k'.label) : k = k' := by
  apply Option.some.inj
  rw [← ofLabel?_label k, h, ofLabel?_label]

theorem FieldType.label_inj {t t' : FieldType} (h : t.label = t'.label) : t = t' := by
  apply Option.some.inj
  rw [← ofLabel?_label t, h, ofLabel?_label]

theorem FieldType.label_of_ofLabel? {s : String} {t : FieldType} (h : ofLabel? s = some t) :
    s = t.label := by
  unfold ofLabel? at h
  have hlabel := List.find?_some h
  exact (eq_of_beq hlabel).symm

theorem linkKind_label (k : LinkKind) : linkKind (.str k.label) = accepted k :=
  oneOf_eq_accepted_iff.2 ⟨_, rfl, LinkKind.ofLabel?_label k⟩

theorem fieldType_eq_accepted_iff {j : Json} {t : FieldType} :
    fieldType j = accepted t ↔ j = .str t.label := by
  unfold fieldType
  rw [oneOf_eq_accepted_iff]
  constructor
  · rintro ⟨s, rfl, h⟩
    rw [FieldType.label_of_ofLabel? h]
  · rintro rfl
    exact ⟨_, rfl, FieldType.ofLabel?_label t⟩

theorem nullable_positive {limit : Option Nat} (h : ∀ n, limit = some n → 0 < n) :
    nullable positive (Json.ofOption (fun n : Nat => .int n) limit) = accepted limit :=
  nullable_ofOption fun n hn => ⟨nofun, positive_int (h n hn)⟩

theorem pos_of_limit {ms : Entries Text Json} {n : Nat}
    (h : defaulted ms "limit" none (nullable positive) = accepted (some n)) : 0 < n := by
  obtain ⟨j, hj⟩ := exists_of_nullable h
  exact pos_of_positive hj

theorem target_ne_empty {ms : Entries Text Json} {label target : String}
    (h : required ms label nonEmptyText = accepted target) : target ≠ "" := by
  obtain ⟨j, -, hj⟩ := required_eq_accepted_iff.1 h
  exact (nonEmptyText_eq_accepted_iff.1 hj).2

namespace Reference

structure Normal (r : Reference) : Prop where
  target : r.target ≠ ""
  limit : ∀ n, r.limit = some n → 0 < n

def members (r : Reference) : Entries Text Json := [
  ("target_model", .str r.target),
  ("kind", .str r.kind.label),
  ("limit", .ofOption (fun n : Nat => .int n) r.limit),
  ("sort_field", .ofOption .str r.sortField)]

variable {j : Json} {r : Reference}

theorem labelled_members (r : Reference) : Labelled r.members labels :=
  ⟨rfl, by decide, by decide⟩

theorem check_eq_accepted_iff :
    check j = accepted r ↔ ∃ ms, j = .obj ms ∧ (∀ l ∈ Entries.keys ms, l.string?.isSome) ∧
      required ms "target_model" nonEmptyText = accepted r.target ∧
      defaulted ms "kind" .belongsTo linkKind = accepted r.kind ∧
      defaulted ms "limit" none (nullable positive) = accepted r.limit ∧
      defaulted ms "sort_field" none (nullable text) = accepted r.sortField ∧
      Entries.keys ms ⊆ labels := by
  unfold check
  simp only [record_eq_accepted_iff, seqLeft_eq_accepted_iff, seq_eq_accepted_iff,
    map_eq_accepted_iff, onlyKnown_eq_accepted_iff, exists_const]
  constructor
  · rintro ⟨ms, hj, hm, ⟨_, ⟨_, ⟨_, ⟨_, ht, rfl⟩, _, hk, rfl⟩, _, hl, rfl⟩, _, hs, rfl⟩, ho⟩
    exact ⟨ms, hj, hm, ht, hk, hl, hs, ho⟩
  · rintro ⟨ms, hj, hm, ht, hk, hl, hs, ho⟩
    exact ⟨ms, hj, hm, ⟨_, ⟨_, ⟨_, ⟨_, ht, rfl⟩, _, hk, rfl⟩, _, hl, rfl⟩, _, hs, rfl⟩, ho⟩

theorem normal_of_check (h : check j = accepted r) : r.Normal := by
  obtain ⟨ms, -, -, htarget, -, hlimit, -, -⟩ := check_eq_accepted_iff.1 h
  exact ⟨target_ne_empty htarget, fun n hn => pos_of_limit (hn ▸ hlimit)⟩

theorem Normal.check_toJson (h : r.Normal) : check r.toJson = accepted r := by
  have hl := labelled_members r
  refine check_eq_accepted_iff.2 ⟨_, rfl, hl.characters, ?_, ?_, ?_, ?_, hl.subset⟩
  · exact hl.required 0 rfl (nonEmptyText_eq_accepted_iff.2 ⟨rfl, h.target⟩)
  · exact hl.defaulted 1 rfl (linkKind_label r.kind)
  · exact hl.defaulted 2 rfl (nullable_positive h.limit)
  · exact hl.defaulted 3 rfl (nullable_text_ofOption r.sortField)

end Reference

namespace Connection

structure Normal (c : Connection) : Prop where
  target : c.target ≠ ""
  limit : ∀ n, c.limit = some n → 0 < n

def members (c : Connection) : Entries Text Json := [
  ("name", .ofOption .str c.name),
  ("key_field", .ofOption .str c.keyField),
  ("sort_field", .ofOption .str c.sortField),
  ("key_name", .ofOption .str c.keyName),
  ("limit", .ofOption (fun n : Nat => .int n) c.limit),
  ("fields", .arr (c.fields.map .str)),
  ("relationship", .str c.kind.label),
  ("connection_target", .str c.target)]

variable {j : Json} {c : Connection}

theorem labelled_members (c : Connection) : Labelled c.members labels :=
  ⟨rfl, by decide, by decide⟩

theorem check_eq_accepted_iff :
    check j = accepted c ↔ ∃ ms, j = .obj ms ∧ (∀ l ∈ Entries.keys ms, l.string?.isSome) ∧
      defaulted ms "name" none (nullable text) = accepted c.name ∧
      defaulted ms "key_field" none (nullable text) = accepted c.keyField ∧
      defaulted ms "sort_field" none (nullable text) = accepted c.sortField ∧
      defaulted ms "key_name" none (nullable text) = accepted c.keyName ∧
      defaulted ms "limit" none (nullable positive) = accepted c.limit ∧
      defaulted ms "fields" [] texts = accepted c.fields ∧
      required ms "relationship" linkKind = accepted c.kind ∧
      required ms "connection_target" nonEmptyText = accepted c.target ∧
      Entries.keys ms ⊆ labels := by
  unfold check
  simp only [record_eq_accepted_iff, seqLeft_eq_accepted_iff, seq_eq_accepted_iff,
    map_eq_accepted_iff, onlyKnown_eq_accepted_iff, exists_const]
  constructor
  · rintro ⟨ms, hj, hm, ⟨_, ⟨_, ⟨_, ⟨_, ⟨_, ⟨_, ⟨_, ⟨_, hn, rfl⟩, _, hf, rfl⟩, _, hs, rfl⟩,
      _, hk, rfl⟩, _, hl, rfl⟩, _, hfs, rfl⟩, _, hr, rfl⟩, _, ht, rfl⟩, ho⟩
    exact ⟨ms, hj, hm, hn, hf, hs, hk, hl, hfs, hr, ht, ho⟩
  · rintro ⟨ms, hj, hm, hn, hf, hs, hk, hl, hfs, hr, ht, ho⟩
    exact ⟨ms, hj, hm, ⟨_, ⟨_, ⟨_, ⟨_, ⟨_, ⟨_, ⟨_, ⟨_, hn, rfl⟩, _, hf, rfl⟩, _, hs, rfl⟩,
      _, hk, rfl⟩, _, hl, rfl⟩, _, hfs, rfl⟩, _, hr, rfl⟩, _, ht, rfl⟩, ho⟩

theorem normal_of_check (h : check j = accepted c) : c.Normal := by
  obtain ⟨ms, -, -, -, -, -, -, hlimit, -, -, htarget, -⟩ := check_eq_accepted_iff.1 h
  exact ⟨target_ne_empty htarget, fun n hn => pos_of_limit (hn ▸ hlimit)⟩

theorem Normal.check_toJson (h : c.Normal) : check c.toJson = accepted c := by
  have hl := labelled_members c
  refine check_eq_accepted_iff.2
    ⟨_, rfl, hl.characters, ?_, ?_, ?_, ?_, ?_, ?_, ?_, ?_, hl.subset⟩
  · exact hl.defaulted 0 rfl (nullable_text_ofOption c.name)
  · exact hl.defaulted 1 rfl (nullable_text_ofOption c.keyField)
  · exact hl.defaulted 2 rfl (nullable_text_ofOption c.sortField)
  · exact hl.defaulted 3 rfl (nullable_text_ofOption c.keyName)
  · exact hl.defaulted 4 rfl (nullable_positive h.limit)
  · exact hl.defaulted 5 rfl (texts_map_str c.fields)
  · exact hl.required 6 rfl (linkKind_label c.kind)
  · exact hl.required 7 rfl (nonEmptyText_eq_accepted_iff.2 ⟨rfl, h.target⟩)

end Connection

namespace Field

structure Normal (f : Field) : Prop where
  name : isName f.name = true
  targetName : f.targetName.isEmpty = false
  isEnum : f.type = .enum → f.isEnum = true
  unbroken : brokenRule? f = none
  reference : ∀ r, f.reference = some r → r.Normal
  connection : ∀ c, f.connection = some c → c.Normal

def members (f : Field) : Entries Text Json := [
  ("name", .str f.name),
  ("target_name", .str f.targetName),
  ("declared_type", .str f.type.label),
  ("target_type", .ofOption .str f.targetType),
  ("is_required", .bool f.isRequired),
  ("is_array", .bool f.isArray),
  ("is_enum", .bool f.isEnum),
  ("is_primary_key", .bool f.isPrimaryKey),
  ("relationship", .ofOption Reference.toJson f.reference),
  ("connection", .ofOption Connection.toJson f.connection)]

variable {ms : Entries Text Json} {j : Json} {f : Field}

theorem labelled_members (f : Field) : Labelled f.members labels :=
  ⟨rfl, by decide, by decide⟩

theorem checkMembers_eq_accepted_iff :
    checkMembers ms = accepted f ↔
      required ms "name" checkName = accepted f.name ∧
      defaulted ms "target_name" (Text.ofString "") text = accepted f.targetName ∧
      required ms "declared_type" fieldType = accepted f.type ∧
      defaulted ms "target_type" none (nullable text) = accepted f.targetType ∧
      defaulted ms "is_required" false flag = accepted f.isRequired ∧
      defaulted ms "is_array" false flag = accepted f.isArray ∧
      defaulted ms "is_enum" false flag = accepted f.isEnum ∧
      defaulted ms "is_primary_key" false flag = accepted f.isPrimaryKey ∧
      defaulted ms "relationship" none (nullable Reference.check) = accepted f.reference ∧
      defaulted ms "connection" none (nullable Connection.check) = accepted f.connection ∧
      ms.keys ⊆ labels := by
  unfold checkMembers
  simp only [seqLeft_eq_accepted_iff, seq_eq_accepted_iff, map_eq_accepted_iff,
    onlyKnown_eq_accepted_iff, exists_const]
  constructor
  · rintro ⟨⟨_, ⟨_, ⟨_, ⟨_, ⟨_, ⟨_, ⟨_, ⟨_, ⟨_, ⟨_, hn, rfl⟩, _, ht, rfl⟩, _, hd, rfl⟩,
      _, htt, rfl⟩, _, hr, rfl⟩, _, ha, rfl⟩, _, he, rfl⟩, _, hp, rfl⟩, _, hrel, rfl⟩,
      _, hc, rfl⟩, ho⟩
    exact ⟨hn, ht, hd, htt, hr, ha, he, hp, hrel, hc, ho⟩
  · rintro ⟨hn, ht, hd, htt, hr, ha, he, hp, hrel, hc, ho⟩
    exact ⟨⟨_, ⟨_, ⟨_, ⟨_, ⟨_, ⟨_, ⟨_, ⟨_, ⟨_, ⟨_, hn, rfl⟩, _, ht, rfl⟩, _, hd, rfl⟩,
      _, htt, rfl⟩, _, hr, rfl⟩, _, ha, rfl⟩, _, he, rfl⟩, _, hp, rfl⟩, _, hrel, rfl⟩,
      _, hc, rfl⟩, ho⟩

theorem check_eq_accepted_iff :
    check j = accepted f ↔ ∃ ms, j = .obj ms ∧ (∀ l ∈ Entries.keys ms, l.string?.isSome) ∧
      checkMembers (normalize ms) = accepted f ∧ brokenRule? f = none := by
  unfold check
  simp only [record_eq_accepted_iff, ensure_eq_accepted_iff]

theorem checkName_eq_accepted_iff {n : String} :
    checkName j = accepted n ↔ j = .str (.ofString n) ∧ n ≠ "" ∧ isName n = true := by
  unfold checkName
  rw [ensure_eq_accepted_iff, nonEmptyText_eq_accepted_iff, and_assoc]
  cases isName n <;> simp

/-! What is filled in before the check -/

theorem get?_defaultTo_of_ne {label source k : Text} (h : k ≠ label) :
    (defaultTo label source ms).get? k = ms.get? k := by
  unfold defaultTo
  split
  · split
    · exact Entries.get?_put_of_ne ms _ h
    · rfl
  · rfl

/-- What is looked up after the defaults, but for the target name. -/
theorem get?_normalize {k : Text} (ht : k ≠ .ofString "target_name") :
    (normalize ms).get? k =
      if isEnumType (ms.get? "declared_type") = true ∧ k = .ofString "is_enum" then
        some (.bool true)
      else ms.get? k := by
  have hdefault : (defaultTo "target_name" "name" ms).get? k = ms.get? k :=
    get?_defaultTo_of_ne ht
  have htype : (defaultTo "target_name" "name" ms).get? "declared_type" =
      ms.get? "declared_type" := get?_defaultTo_of_ne (by decide)
  unfold normalize
  simp only [htype]
  by_cases he : isEnumType (ms.get? "declared_type") = true
  · rw [if_pos he]
    by_cases hk : k = .ofString "is_enum"
    · rw [hk, Entries.get?_put_self, if_pos ⟨he, rfl⟩]
    · rw [Entries.get?_put_of_ne _ _ hk, hdefault, if_neg fun h => hk h.2]
  · rw [if_neg he, hdefault, if_neg fun h => he h.1]

theorem get?_normalize_of_ne {k : Text} (ht : k ≠ .ofString "target_name")
    (he : k ≠ .ofString "is_enum") : (normalize ms).get? k = ms.get? k := by
  rw [get?_normalize ht, if_neg fun h => he h.2]

theorem get?_normalize_targetName {name : Json} (hn : ms.get? "name" = some name)
    (hb : name.isBlank = false) :
    (normalize ms).get? "target_name" =
      if isBlankAt ms "target_name" then some name else ms.get? "target_name" := by
  have hd : (defaultTo "target_name" "name" ms).get? "target_name" =
      if isBlankAt ms "target_name" then some name else ms.get? "target_name" := by
    unfold defaultTo
    simp only [hn, hb, Bool.not_false, Bool.and_true]
    split
    · exact Entries.get?_put_self ms _ _
    · rfl
  unfold normalize
  simp only
  split
  · rw [Entries.get?_put_of_ne _ _ (by decide)]
    exact hd
  · exact hd

theorem exists_of_not_isBlankAt {label : Text} (h : ¬ isBlankAt ms label = true) :
    ∃ j, ms.get? label = some j ∧ j.isBlank = false := by
  unfold isBlankAt at h
  cases hj : ms.get? label with
  | none => simp [hj] at h
  | some j => exact ⟨j, rfl, by simpa [hj] using h⟩

theorem targetName_given {name : Json} (hn : ms.get? "name" = some name)
    (hb : name.isBlank = false) :
    ∃ target, (normalize ms).get? "target_name" = some target ∧ target.isBlank = false := by
  rw [get?_normalize_targetName hn hb]
  split
  · exact ⟨name, rfl, hb⟩
  · next h => exact exists_of_not_isBlankAt h

theorem isEnum_given (h : ms.get? "declared_type" = some (.str FieldType.enum.label)) :
    (normalize ms).get? "is_enum" = some (.bool true) := by
  rw [get?_normalize (by decide), h, if_pos ⟨by simp [isEnumType], rfl⟩]

theorem normal_of_check (h : check j = accepted f) : f.Normal := by
  obtain ⟨ms, -, -, hm, hrule⟩ := check_eq_accepted_iff.1 h
  obtain ⟨hname, htarget, htype, -, -, -, henum, -, hreference, hconnection, -⟩ :=
    checkMembers_eq_accepted_iff.1 hm
  obtain ⟨name, hget, hname⟩ := required_eq_accepted_iff.1 hname
  obtain ⟨rfl, hne, hisName⟩ := checkName_eq_accepted_iff.1 hname
  rw [get?_normalize_of_ne (by decide) (by decide)] at hget
  constructor
  case name => exact hisName
  case unbroken => exact hrule
  case targetName =>
    obtain ⟨target, hgiven, hb⟩ := targetName_given hget (Text.isEmpty_ofString hne)
    cases text_eq_accepted_iff.1 (check_of_given hgiven htarget)
    exact hb
  case isEnum =>
    intro ht
    obtain ⟨j, hget, hj⟩ := required_eq_accepted_iff.1 htype
    rw [ht, fieldType_eq_accepted_iff] at hj
    rw [get?_normalize_of_ne (by decide) (by decide), hj] at hget
    have hflag := check_of_given (isEnum_given hget) henum
    exact (accepted_inj.1 hflag).symm
  case reference =>
    intro r hr
    rw [hr] at hreference
    obtain ⟨j, hj⟩ := exists_of_nullable hreference
    exact Reference.normal_of_check hj
  case connection =>
    intro c hc
    rw [hc] at hconnection
    obtain ⟨j, hj⟩ := exists_of_nullable hconnection
    exact Connection.normal_of_check hj

theorem Normal.normalize_members (h : f.Normal) : normalize f.members = f.members := by
  have hl := labelled_members f
  have hd : defaultTo "target_name" "name" f.members = f.members := by
    unfold defaultTo isBlankAt
    rw [hl.get? 0 rfl, hl.get? 1 rfl]
    simp [Json.isBlank, h.targetName]
  unfold normalize
  simp only [hd]
  split
  · next he =>
    rw [hl.get? 2 rfl] at he
    have hlabel : f.type.label = FieldType.enum.label := by simpa [isEnumType] using he
    have ht := FieldType.label_inj hlabel
    refine Entries.put_of_get? (hl.get? 6 ?_)
    rw [← h.isEnum ht]
    rfl
  · rfl

theorem Normal.check_toJson (h : f.Normal) : check f.toJson = accepted f := by
  have hl := labelled_members f
  have hname : f.name ≠ "" := by
    intro hn
    have := h.name
    rw [hn] at this
    contradiction
  refine check_eq_accepted_iff.2 ⟨f.members, rfl, hl.characters, ?_, h.unbroken⟩
  rw [h.normalize_members]
  refine checkMembers_eq_accepted_iff.2 ⟨?_, ?_, ?_, ?_, ?_, ?_, ?_, ?_, ?_, ?_, hl.subset⟩
  · exact hl.required 0 rfl (checkName_eq_accepted_iff.2 ⟨rfl, hname, h.name⟩)
  · exact hl.defaulted 1 rfl rfl
  · exact hl.required 2 rfl (fieldType_eq_accepted_iff.2 rfl)
  · exact hl.defaulted 3 rfl (nullable_text_ofOption f.targetType)
  · exact hl.defaulted 4 rfl rfl
  · exact hl.defaulted 5 rfl rfl
  · exact hl.defaulted 6 rfl rfl
  · exact hl.defaulted 7 rfl rfl
  · exact hl.defaulted 8 rfl
      (nullable_ofOption fun r hr => ⟨nofun, (h.reference r hr).check_toJson⟩)
  · exact hl.defaulted 9 rfl
      (nullable_ofOption fun c hc => ⟨nofun, (h.connection c hc).check_toJson⟩)

end Field

end CanonicalSchema
