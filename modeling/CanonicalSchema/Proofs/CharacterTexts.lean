import CanonicalSchema.Proofs.WrittenSchema

/-!
Where the texts of a schema come from. A check makes up no text, so what it accepts is made of
characters if it was given nothing else; the same goes for the words in which a broken rule is put.
-/

namespace CanonicalSchema

open Checked

namespace Json

/-- Every text of the value is made of characters, its labels included. -/
abbrev OfCharacters (j : Json) : Prop := j.Everywhere fun v => ∀ t ∈ v.texts, t.OfCharacters

theorem ofCharacters_null : null.OfCharacters := by simp [texts]

theorem ofCharacters_bool (b : Bool) : (bool b).OfCharacters := by simp [texts]

theorem ofCharacters_int (n : Int) : (int n).OfCharacters := by simp [texts]

theorem ofCharacters_str_iff {t : Text} : (str t).OfCharacters ↔ t.OfCharacters := by simp [texts]

theorem ofCharacters_string (s : String) : (str (.ofString s)).OfCharacters :=
  ofCharacters_str_iff.2 (Text.ofCharacters_ofString s)

theorem ofCharacters_texts_iff {ts : List Text} :
    (arr (ts.map str)).OfCharacters ↔ ∀ t ∈ ts, t.OfCharacters := by
  simp [texts]

theorem ofCharacters_obj_iff {ms : Entries Text Json} :
    (obj ms).OfCharacters ↔ (∀ m ∈ ms, m.1.OfCharacters) ∧ ∀ m ∈ ms, m.2.OfCharacters := by
  rw [Json.OfCharacters, everywhere_obj_iff]
  exact and_congr List.forall_mem_map Iff.rfl

end Json

/-! Checks -/

/-- What the check accepts is written with the texts that it was given. -/
def KeepsCharacters {α : Type} (check : Json → Checked α) (write : α → Json) : Prop :=
  ∀ (j : Json) (a : α), j.OfCharacters → check j = accepted a → (write a).OfCharacters

section Attributes

variable {α : Type} {check : Json → Checked α} {write : α → Json} {ms : Entries Text Json}
  {label : String} {a : α}

theorem keepsCharacters_text : KeepsCharacters text .str := by
  intro j t hj h
  cases text_eq_accepted_iff.1 h
  exact hj

theorem texts_eq_accepted_iff {j : Json} {ts : List Text} :
    texts j = accepted ts ↔ j = .arr (ts.map .str) := by
  constructor
  · intro h
    cases j with
    | arr items =>
      have hi := all_eq_accepted_iff.1 h
      have hl : items.length = ts.length := by simpa using congrArg List.length hi
      congr 1
      apply List.ext_getElem
      · simpa using hl
      · intro i h₁ h₂
        have hget := List.getElem_of_eq hi (by simpa using h₁)
        simp only [List.getElem_mapIdx, List.getElem_map, under_eq_accepted_iff,
          text_eq_accepted_iff] at hget
        rw [hget, List.getElem_map]
    | _ => cases h
  · rintro rfl
    exact texts_map_str ts

theorem keepsCharacters_texts : KeepsCharacters texts fun ts => .arr (ts.map .str) := by
  intro j ts hj h
  cases texts_eq_accepted_iff.1 h
  exact hj

theorem KeepsCharacters.nullable (hc : KeepsCharacters check write) :
    KeepsCharacters (nullable check) (Json.ofOption write) := by
  intro j o hj h
  cases o with
  | none => exact Json.ofCharacters_null
  | some a => exact hc j a hj (nullable_eq_some_iff.1 h).2

theorem KeepsCharacters.defaulted (hc : KeepsCharacters check write) {default : α}
    (hms : ∀ m ∈ ms, m.2.OfCharacters) (hd : (write default).OfCharacters)
    (h : defaulted ms label default check = accepted a) : (write a).OfCharacters := by
  obtain ⟨j, hj, hcheck⟩ | ⟨-, rfl⟩ := defaulted_eq_accepted_iff.1 h
  · exact hc j _ (hms _ (Entries.mem_of_get? hj)) hcheck
  · exact hd

theorem KeepsCharacters.optional (hc : KeepsCharacters check write)
    (hms : ∀ m ∈ ms, m.2.OfCharacters) {o : Option α}
    (h : Checked.defaulted ms label none (Checked.nullable check) = accepted o) :
    (Json.ofOption write o).OfCharacters := by
  have hnone : (Json.ofOption write none).OfCharacters := Json.ofCharacters_null
  exact hc.nullable.defaulted hms hnone h

theorem Labelled.ofCharacters {labels : List Text} (h : Labelled ms labels)
    (hv : ∀ v ∈ ms.values, v.OfCharacters) : (Json.obj ms).OfCharacters := by
  rw [Json.ofCharacters_obj_iff]
  constructor
  · intro m hm
    obtain ⟨s, hs⟩ := Option.isSome_iff_exists.1 (h.characters m.1 (List.mem_map_of_mem hm))
    rw [Text.string?_eq_some_iff.1 hs]
    exact Text.ofCharacters_ofString s
  · exact fun m hm => hv _ (List.mem_map_of_mem hm)

end Attributes

/-! Records -/

theorem Reference.keepsCharacters : KeepsCharacters check toJson := by
  intro j r hj h
  obtain ⟨ms, rfl, -, -, -, -, hsort, -⟩ := check_eq_accepted_iff.1 h
  have hms := (Json.ofCharacters_obj_iff.1 hj).2
  apply (labelled_members r).ofCharacters
  simp only [members, Entries.values, List.map_cons, List.map_nil, List.forall_mem_cons]
  exact ⟨Json.ofCharacters_string _, Json.ofCharacters_string _,
    Json.everywhere_ofOption Json.ofCharacters_null fun n _ => Json.ofCharacters_int n,
    keepsCharacters_text.optional hms hsort, List.forall_mem_nil _⟩

theorem Connection.keepsCharacters : KeepsCharacters check toJson := by
  intro j c hj h
  obtain ⟨ms, rfl, -, hname, hkey, hsort, hkeyName, -, hfields, -, -, -⟩ :=
    check_eq_accepted_iff.1 h
  have hms := (Json.ofCharacters_obj_iff.1 hj).2
  apply (labelled_members c).ofCharacters
  simp only [members, Entries.values, List.map_cons, List.map_nil, List.forall_mem_cons]
  refine ⟨keepsCharacters_text.optional hms hname, keepsCharacters_text.optional hms hkey,
    keepsCharacters_text.optional hms hsort, keepsCharacters_text.optional hms hkeyName,
    Json.everywhere_ofOption Json.ofCharacters_null fun n _ => Json.ofCharacters_int n, ?_,
    Json.ofCharacters_string _, Json.ofCharacters_string _, List.forall_mem_nil _⟩
  exact keepsCharacters_texts.defaulted hms
    (Json.ofCharacters_texts_iff.2 (List.forall_mem_nil _)) hfields

namespace Index

theorem check_eq_accepted_iff {j : Json} {i : Index} :
    check j = accepted i ↔ ∃ ms, j = .obj ms ∧ (∀ l ∈ Entries.keys ms, l.string?.isSome) ∧
      defaulted ms "index_name" none (nullable text) = accepted i.name ∧
      defaulted ms "index_field_names" [] texts = accepted i.fields ∧
      Entries.keys ms ⊆ labels := by
  unfold check
  simp only [record_eq_accepted_iff, seqLeft_eq_accepted_iff, seq_eq_accepted_iff,
    map_eq_accepted_iff, onlyKnown_eq_accepted_iff, exists_const]
  constructor
  · rintro ⟨ms, hj, hm, ⟨_, ⟨_, hn, rfl⟩, _, hf, rfl⟩, ho⟩
    exact ⟨ms, hj, hm, hn, hf, ho⟩
  · rintro ⟨ms, hj, hm, hn, hf, ho⟩
    exact ⟨ms, hj, hm, ⟨_, ⟨_, hn, rfl⟩, _, hf, rfl⟩, ho⟩

theorem keepsCharacters : KeepsCharacters check toJson := by
  intro j i hj h
  obtain ⟨ms, rfl, -, hname, hfields, -⟩ := check_eq_accepted_iff.1 h
  have hms := (Json.ofCharacters_obj_iff.1 hj).2
  apply (labelled_members i).ofCharacters
  simp only [members, Entries.values, List.map_cons, List.map_nil, List.forall_mem_cons]
  refine ⟨keepsCharacters_text.optional hms hname, ?_, List.forall_mem_nil _⟩
  exact keepsCharacters_texts.defaulted hms
    (Json.ofCharacters_texts_iff.2 (List.forall_mem_nil _)) hfields

theorem ofCharacters_iff {i : Index} :
    i.toJson.OfCharacters ↔
      (∀ n, i.name = some n → n.OfCharacters) ∧ ∀ t ∈ i.fields, t.OfCharacters := by
  constructor
  · intro h
    obtain ⟨-, hv⟩ := Json.ofCharacters_obj_iff.1 h
    simp only [List.forall_mem_cons, Json.ofCharacters_texts_iff] at hv
    obtain ⟨hname, hfields, -⟩ := hv
    refine ⟨fun n hn => ?_, hfields⟩
    rw [hn] at hname
    exact Json.ofCharacters_str_iff.1 hname
  · rintro ⟨hname, hfields⟩
    apply (labelled_members i).ofCharacters
    simp only [members, Entries.values, List.map_cons, List.map_nil, List.forall_mem_cons,
      Json.ofCharacters_texts_iff]
    exact ⟨Json.everywhere_ofOption Json.ofCharacters_null
      fun n hn => Json.ofCharacters_str_iff.2 (hname n hn), hfields, List.forall_mem_nil _⟩

theorem ofCharacters_empty : Index.empty.toJson.OfCharacters :=
  ofCharacters_iff.2 ⟨nofun, List.forall_mem_nil _⟩

end Index

namespace Field

variable {ms : Entries Text Json}

theorem ofCharacters_normalize (hms : ∀ m ∈ ms, m.2.OfCharacters) :
    ∀ m ∈ normalize ms, m.2.OfCharacters := by
  have hd : ∀ m ∈ defaultTo "target_name" "name" ms, m.2.OfCharacters := by
    intro m hm
    unfold defaultTo at hm
    split at hm
    · next j hj =>
      split at hm
      · rcases Entries.mem_of_mem_put hm with hm | hm
        · exact hms m hm
        · rw [hm]
          exact hms _ (Entries.mem_of_get? hj)
      · exact hms m hm
    · exact hms m hm
  intro m hm
  unfold normalize at hm
  simp only at hm
  split at hm
  · rcases Entries.mem_of_mem_put hm with hm | hm
    · exact hd m hm
    · rw [hm]
      exact Json.ofCharacters_bool true
  · exact hd m hm

theorem keepsCharacters : KeepsCharacters check toJson := by
  intro j f hj h
  -- What is checked are the members after the defaults were filled in.
  obtain ⟨ms, rfl, -, hm, -⟩ := check_eq_accepted_iff.1 h
  obtain ⟨-, htarget, -, htype, -, -, -, -, href, hcon, -⟩ := checkMembers_eq_accepted_iff.1 hm
  have hms := ofCharacters_normalize (Json.ofCharacters_obj_iff.1 hj).2
  apply (labelled_members f).ofCharacters
  simp only [members, Entries.values, List.map_cons, List.map_nil, List.forall_mem_cons]
  exact ⟨Json.ofCharacters_string _,
    keepsCharacters_text.defaulted hms (Json.ofCharacters_string "") htarget,
    Json.ofCharacters_string _, keepsCharacters_text.optional hms htype,
    Json.ofCharacters_bool _, Json.ofCharacters_bool _, Json.ofCharacters_bool _,
    Json.ofCharacters_bool _, Reference.keepsCharacters.optional hms href,
    Connection.keepsCharacters.optional hms hcon, List.forall_mem_nil _⟩

end Field

/-! Schemas -/

theorem Schema.ofCharacters_iff {s : Schema} :
    s.OfCharacters ↔ s.targetName.OfCharacters ∧
      (∀ e ∈ s.fields, e.1.OfCharacters ∧ e.2.toJson.OfCharacters) ∧
        s.index.toJson.OfCharacters := by
  constructor
  · intro h
    obtain ⟨-, hv⟩ := Json.ofCharacters_obj_iff.1 h
    simp only [List.forall_mem_cons, Json.ofCharacters_str_iff, Json.ofCharacters_obj_iff,
      List.forall_mem_map] at hv
    obtain ⟨-, htarget, ⟨hkeys, hfields⟩, hindex, -⟩ := hv
    exact ⟨htarget, fun e he => ⟨hkeys e he, hfields e he⟩, hindex⟩
  · rintro ⟨htarget, hfields, hindex⟩
    apply (labelled_members s).ofCharacters
    simp only [members, Entries.values, List.map_cons, List.map_nil, List.forall_mem_cons,
      Json.ofCharacters_str_iff, Json.ofCharacters_obj_iff, List.forall_mem_map]
    exact ⟨Text.ofCharacters_ofString _, htarget, ⟨fun e he => (hfields e he).1,
      fun e he => (hfields e he).2⟩, hindex, List.forall_mem_nil _⟩

theorem Field.ofCharacters_targetName {f : Field} (h : f.toJson.OfCharacters) :
    f.targetName.OfCharacters := by
  have hv := (Json.ofCharacters_obj_iff.1 h).2 (.ofString "target_name", .str f.targetName)
  exact Json.ofCharacters_str_iff.1 (hv (by simp))

/-! Drafts -/

def FieldSource.OfCharacters : FieldSource → Prop
  | described j => j.OfCharacters
  | ready f => f.toJson.OfCharacters

def IndexSource.OfCharacters : IndexSource → Prop
  | described j => j.OfCharacters
  | ready i => i.toJson.OfCharacters

def FieldTable.OfCharacters : FieldTable → Prop
  | entries es => ∀ e ∈ es, (∀ t, e.1 = .str t → t.OfCharacters) ∧ e.2.OfCharacters
  | _ => True

theorem FieldSource.ofCharacters_of_check {source : FieldSource} {f : Field}
    (hs : source.OfCharacters) (h : source.check = accepted f) : f.toJson.OfCharacters := by
  cases source with
  | described j => exact Field.keepsCharacters j f hs h
  | ready f' =>
    cases h
    exact hs

theorem IndexSource.ofCharacters_of_check {source : IndexSource} {i : Index}
    (hs : source.OfCharacters) (h : source.check = accepted i) : i.toJson.OfCharacters := by
  cases source with
  | described j => exact Index.keepsCharacters j i hs h
  | ready i' =>
    cases h
    exact hs

theorem Schema.ofCharacters_of_checksTo {es : Entries Key FieldSource}
    {fields : Entries Text Field}
    (hs : ∀ e ∈ es, (∀ t, e.1 = .str t → t.OfCharacters) ∧ e.2.OfCharacters)
    (h : List.Forall₂ ChecksTo es fields) :
    ∀ e ∈ fields, e.1.OfCharacters ∧ e.2.toJson.OfCharacters := by
  induction h with
  | nil => exact List.forall_mem_nil _
  | cons hd _ ih =>
    rw [List.forall_mem_cons] at hs ⊢
    obtain ⟨⟨hkey, hsource⟩, hrest⟩ := hs
    exact ⟨⟨hkey _ hd.1, FieldSource.ofCharacters_of_check hsource hd.2⟩, ih hrest⟩

theorem FieldTable.ofCharacters_of_check {table : FieldTable} {fields : Entries Text Field}
    (ht : table.OfCharacters) (h : Schema.checkTable table = accepted fields) :
    ∀ e ∈ fields, e.1.OfCharacters ∧ e.2.toJson.OfCharacters := by
  cases table with
  | absent =>
    cases h
    exact List.forall_mem_nil _
  | notTable => cases h
  | entries es => exact Schema.ofCharacters_of_checksTo ht (Schema.checkTable_entries_iff.1 h)

structure Draft.OfCharacters (d : Draft) : Prop where
  name : ∀ j ∈ d.name, j.OfCharacters
  targetName : ∀ j ∈ d.targetName, j.OfCharacters
  table : d.table.OfCharacters
  index : ∀ source ∈ d.index, source.OfCharacters

namespace Draft

variable {d : Draft} {s : Schema}

theorem OfCharacters.normalize_targetName (hd : d.OfCharacters) :
    ∀ j ∈ d.normalize.targetName, j.OfCharacters := by
  unfold normalize
  split
  · exact hd.name
  · exact hd.targetName

theorem OfCharacters.schema (hd : d.OfCharacters)
    (h : d.normalize.checkAttributes = accepted s) : s.OfCharacters := by
  obtain ⟨-, htarget, htable, hindex, -⟩ := checkAttributes_eq_accepted_iff.1 h
  rw [normalize_table] at htable
  rw [normalize_checkIndex] at hindex
  refine Schema.ofCharacters_iff.2 ⟨?_, FieldTable.ofCharacters_of_check hd.table htable, ?_⟩
  · unfold checkTargetName at htarget
    split at htarget
    · next j hj =>
      cases text_eq_accepted_iff.1 htarget
      exact Json.ofCharacters_str_iff.1 (hd.normalize_targetName _ hj)
    · rw [← accepted_inj.1 htarget]
      exact Text.ofCharacters_ofString ""
  · unfold checkIndex at hindex
    split at hindex
    · next source hs => exact IndexSource.ofCharacters_of_check (hd.index source hs) hindex
    · rw [← accepted_inj.1 hindex]
      exact Index.ofCharacters_empty

theorem ofCharacters_ofMembers {ms : Entries Text Json} (h : (Json.obj ms).OfCharacters) :
    (ofMembers ms).OfCharacters := by
  have hms := (Json.ofCharacters_obj_iff.1 h).2
  have hget : ∀ {label : Text} {j : Json}, ms.get? label = some j → j.OfCharacters :=
    fun hj => hms _ (Entries.mem_of_get? hj)
  constructor
  case name => exact fun j hj => hget hj
  case targetName => exact fun j hj => hget hj
  case index =>
    intro source hs
    obtain ⟨j, hj, rfl⟩ := Option.map_eq_some_iff.1 hs
    exact hget hj
  case table =>
    unfold ofMembers
    simp only
    generalize (if !ms.contains "fields" && ms.contains "field_map" then "field_map" else "fields" :
      String) = label
    cases hg : ms.get? label with
    | none => trivial
    | some j =>
      cases j with
      | obj members =>
        obtain ⟨hkeys, hvalues⟩ := Json.ofCharacters_obj_iff.1 (hget hg)
        intro e he
        obtain ⟨m, hm, rfl⟩ := List.mem_map.1 he
        refine ⟨?_, hvalues m hm⟩
        rintro t ht
        cases ht
        exact hkeys m hm
      | _ => trivial

end Draft

/-! Rules -/

namespace Schema

variable {s : Schema} {rule : Rule}

theorem ofCharacters_of_misplaced {model : String} {seen : Entries Text String}
    {fields : Entries Text Field}
    (hf : ∀ e ∈ fields, e.1.OfCharacters ∧ e.2.targetName.OfCharacters)
    (h : misplaced? model seen fields = some rule) : rule.message.OfCharacters := by
  induction fields generalizing seen with
  | nil => contradiction
  | cons e rest ih =>
    obtain ⟨key, f⟩ := e
    rw [List.forall_mem_cons] at hf
    obtain ⟨⟨hkey, htarget⟩, hrest⟩ := hf
    unfold misplaced? at h
    split at h
    · cases h
      simp [Rule.message, hkey]
    · split at h
      · cases h
        simp [Rule.message, htarget]
      · exact ih hrest h

theorem OfCharacters.brokenRule (hs : s.OfCharacters) (h : brokenRule? s = some rule) :
    rule.message.OfCharacters := by
  obtain ⟨-, hfields, -⟩ := ofCharacters_iff.1 hs
  unfold brokenRule? at h
  split at h
  · next hr =>
    cases h
    exact ofCharacters_of_misplaced
      (fun e he => ⟨(hfields e he).1, Field.ofCharacters_targetName (hfields e he).2⟩) hr
  · simp only at h
    split at h
    · cases h
      simp [Rule.message]
    · contradiction

end Schema

namespace Schema

variable {s : Schema} {j : Json} {rule : Rule}

/-- The value describes a schema whose attributes are all accepted, yet it breaks the rule. -/
def Breaks (j : Json) (rule : Rule) : Prop :=
  ∃ ms s, j = .obj ms ∧ (∀ l ∈ Entries.keys ms, l.string?.isSome) ∧
    (Draft.ofMembers ms).normalize.checkAttributes = accepted s ∧ brokenRule? s = some rule

theorem Breaks.ofCharacters (h : Breaks j rule) (hj : j.OfCharacters) :
    rule.message.OfCharacters := by
  obtain ⟨ms, s, rfl, -, ha, hr⟩ := h
  exact ((Draft.ofCharacters_ofMembers hj).schema ha).brokenRule hr

/-- A value that is no schema is rejected, or else the words for the rule that it breaks have no
encoding. -/
theorem ofJson_error_cases {fault : SchemaFault} (h : Schema.ofJson j = .error fault) :
    (∃ rejection, fault = .rejected rejection) ∨
      ∃ rule message, Breaks j rule ∧ rule.message.encodable = .error message ∧
        fault = .unencodable message := by
  unfold Schema.ofJson at h
  split at h
  · cases h
    exact Or.inl ⟨_, rfl⟩
  · next d hd =>
    obtain ⟨ms, hj, hl, heq⟩ := record_eq_accepted_iff.1 hd
    cases heq
    unfold Draft.check at h
    split at h
    · cases h
      exact Or.inl ⟨_, rfl⟩
    · next s ha =>
      split at h
      · next rule hr =>
        cases h
        unfold SchemaFault.ofRule
        split
        · exact Or.inl ⟨_, rfl⟩
        · next message hm => exact Or.inr ⟨rule, message, ⟨ms, s, hj, hl, ha, hr⟩, hm, rfl⟩
      · cases h

end Schema

end CanonicalSchema
