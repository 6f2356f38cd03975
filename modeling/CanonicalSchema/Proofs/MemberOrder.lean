import CanonicalSchema.Proofs.CharacterTexts
import CanonicalSchema.Proofs.Json.LayoutLines
import CanonicalSchema.Proofs.Json.Reordered
import CanonicalSchema.Proofs.OrderIndependence
import CanonicalSchema.Schema.Snapshot

/-!
The order of the members of an object decides nothing, at any depth: a description in another order
is accepted as the same. Only the fields of a schema keep the order in which they are given.
-/

namespace CanonicalSchema

namespace Checked

/-- What is accepted is accepted as the same with its members in any order. -/
def IgnoresOrder {α : Type} (check : Json → Checked α) : Prop :=
  ∀ v w a, v.Reordered w → check v = accepted a → check w = accepted a

def IgnoresMemberOrder {α : Type} (check : Entries Text Json → Checked α) : Prop :=
  ∀ ms ns a, Json.SameMembers ms ns → check ms = accepted a → check ns = accepted a

variable {α β : Type} {check : Json → Checked α}

/-! Single values -/

theorem ignoresOrder_of_scalar (harr : ∀ items a, check (.arr items) ≠ accepted a)
    (hobj : ∀ ms a, check (.obj ms) ≠ accepted a) : IgnoresOrder check := by
  intro v w a hvw h
  cases hvw with
  | refl => exact h
  | arr => exact absurd h (harr _ a)
  | obj => exact absurd h (hobj _ a)

theorem ignoresOrder_text : IgnoresOrder text := ignoresOrder_of_scalar nofun nofun

theorem ignoresOrder_nonEmptyText : IgnoresOrder nonEmptyText := ignoresOrder_of_scalar nofun nofun

theorem ignoresOrder_oneOf (labels : List String) (ofLabel? : String → Option α) :
    IgnoresOrder (oneOf labels ofLabel?) :=
  ignoresOrder_of_scalar nofun nofun

theorem ignoresOrder_flag : IgnoresOrder flag := ignoresOrder_of_scalar nofun nofun

theorem ignoresOrder_positive : IgnoresOrder positive := ignoresOrder_of_scalar nofun nofun

theorem ignoresOrder_checkName : IgnoresOrder Field.checkName :=
  ignoresOrder_of_scalar nofun nofun

theorem ignoresOrder_texts : IgnoresOrder texts := by
  intro v w ts hvw h
  cases hvw with
  | refl => exact h
  | obj => contradiction
  | @arr vs ws length items =>
    cases texts_eq_accepted_iff.1 h
    rw [texts_eq_accepted_iff]
    congr 1
    refine List.ext_getElem length.symm fun i hi hi' => ?_
    -- A text is reordered into itself only.
    have hitem := items i _ _ (List.getElem?_eq_getElem hi') (List.getElem?_eq_getElem hi)
    rw [List.getElem_map] at hitem ⊢
    generalize ws[i] = w at hitem ⊢
    cases hitem
    rfl

theorem IgnoresOrder.nullable (hc : IgnoresOrder check) : IgnoresOrder (nullable check) := by
  intro v w o hvw h
  cases hvw with
  | refl => exact h
  | arr length items =>
    obtain ⟨a, ha, rfl⟩ := map_eq_accepted_iff.1 h
    exact map_eq_accepted_iff.2 ⟨a, hc _ _ a (.arr length items) ha, rfl⟩
  | obj labels members =>
    obtain ⟨a, ha, rfl⟩ := map_eq_accepted_iff.1 h
    exact map_eq_accepted_iff.2 ⟨a, hc _ _ a (.obj labels members) ha, rfl⟩

/-! Attributes and records -/

theorem IgnoresOrder.required (hc : IgnoresOrder check) (label : String) :
    IgnoresMemberOrder fun ms => required ms label check := by
  intro ms ns a hms h
  obtain ⟨v, hv, ha⟩ := required_eq_accepted_iff.1 h
  obtain ⟨w, hw, hvw⟩ := hms.of_some hv
  exact required_eq_accepted_iff.2 ⟨w, hw, hc v w a hvw ha⟩

theorem IgnoresOrder.defaulted (hc : IgnoresOrder check) (label : String) (default : α) :
    IgnoresMemberOrder fun ms => defaulted ms label default check := by
  intro ms ns a hms h
  rcases defaulted_eq_accepted_iff.1 h with ⟨v, hv, ha⟩ | ⟨hnone, hd⟩
  · obtain ⟨w, hw, hvw⟩ := hms.of_some hv
    exact defaulted_eq_accepted_iff.2 (Or.inl ⟨w, hw, hc v w a hvw ha⟩)
  · exact defaulted_eq_accepted_iff.2 (Or.inr ⟨hms.of_none hnone, hd⟩)

theorem ignoresMemberOrder_onlyKnown (known : List Text) :
    IgnoresMemberOrder (onlyKnown known) := by
  intro ms ns u hms h
  rw [onlyKnown_eq_accepted_iff] at h ⊢
  exact fun l hl => h (hms.mem_keys_iff.2 hl)

namespace IgnoresMemberOrder

variable {f : Entries Text Json → Checked (α → β)} {x : Entries Text Json → Checked α}
  {y : Entries Text Json → Checked β}

theorem map (hx : IgnoresMemberOrder x) (g : α → β) : IgnoresMemberOrder fun ms => g <$> x ms := by
  intro ms ns b hms h
  obtain ⟨a, ha, hb⟩ := map_eq_accepted_iff.1 h
  exact map_eq_accepted_iff.2 ⟨a, hx ms ns a hms ha, hb⟩

theorem seq (hf : IgnoresMemberOrder f) (hx : IgnoresMemberOrder x) :
    IgnoresMemberOrder fun ms => f ms <*> x ms := by
  intro ms ns b hms h
  obtain ⟨g, hg, a, ha, hb⟩ := seq_eq_accepted_iff.1 h
  exact seq_eq_accepted_iff.2 ⟨g, hf ms ns g hms hg, a, hx ms ns a hms ha, hb⟩

theorem seqLeft (hx : IgnoresMemberOrder x) (hy : IgnoresMemberOrder y) :
    IgnoresMemberOrder fun ms => x ms <* y ms := by
  intro ms ns a hms h
  obtain ⟨ha, b, hb⟩ := seqLeft_eq_accepted_iff.1 h
  exact seqLeft_eq_accepted_iff.2 ⟨hx ms ns a hms ha, b, hy ms ns b hms hb⟩

theorem record (hx : IgnoresMemberOrder x) (title : String) :
    IgnoresOrder (Checked.record title x) := by
  intro v w a hvw h
  obtain ⟨ms, rfl, hl, ha⟩ := record_eq_accepted_iff.1 h
  obtain ⟨ns, rfl⟩ : ∃ ns, w = .obj ns := by
    cases hvw with
    | refl => exact ⟨ms, rfl⟩
    | obj => exact ⟨_, rfl⟩
  have hms := hvw.sameMembers
  exact record_eq_accepted_iff.2
    ⟨ns, rfl, fun l hn => hl l (hms.mem_keys_iff.2 hn), hx ms ns a hms ha⟩

end IgnoresMemberOrder

end Checked

open Checked

theorem Reference.ignoresOrder : IgnoresOrder check := by
  refine IgnoresMemberOrder.record (.seqLeft (.seq (.seq (.seq (.map ?_ _) ?_) ?_) ?_) ?_) _
  · exact ignoresOrder_nonEmptyText.required _
  · exact (ignoresOrder_oneOf _ _).defaulted _ _
  · exact ignoresOrder_positive.nullable.defaulted _ _
  · exact ignoresOrder_text.nullable.defaulted _ _
  · exact ignoresMemberOrder_onlyKnown _

theorem Connection.ignoresOrder : IgnoresOrder check := by
  have htext (label : String) : IgnoresMemberOrder fun ms =>
      defaulted ms label none (nullable text) := ignoresOrder_text.nullable.defaulted label none
  refine IgnoresMemberOrder.record (.seqLeft (.seq (.seq (.seq (.seq (.seq (.seq (.seq
    ((htext "name").map _) (htext "key_field")) (htext "sort_field")) (htext "key_name")) ?_) ?_)
    ?_) ?_) ?_) _
  · exact ignoresOrder_positive.nullable.defaulted _ _
  · exact ignoresOrder_texts.defaulted _ _
  · exact (ignoresOrder_oneOf _ _).required _
  · exact ignoresOrder_nonEmptyText.required _
  · exact ignoresMemberOrder_onlyKnown _

theorem Index.ignoresOrder : IgnoresOrder check := by
  refine IgnoresMemberOrder.record (.seqLeft (.seq (.map ?_ _) ?_) ?_) _
  · exact ignoresOrder_text.nullable.defaulted _ _
  · exact ignoresOrder_texts.defaulted _ _
  · exact ignoresMemberOrder_onlyKnown _

namespace Field

theorem checkMembers_ignoresOrder : IgnoresMemberOrder checkMembers := by
  have hflag (label : String) : IgnoresMemberOrder fun ms => defaulted ms label false flag :=
    ignoresOrder_flag.defaulted label false
  refine .seqLeft (.seq (.seq (.seq (.seq (.seq (.seq (.seq (.seq (.seq (.map ?_ _) ?_) ?_) ?_)
    (hflag "is_required")) (hflag "is_array")) (hflag "is_enum")) (hflag "is_primary_key")) ?_)
    ?_) ?_
  · exact ignoresOrder_checkName.required _
  · exact ignoresOrder_text.defaulted _ _
  · exact (ignoresOrder_oneOf _ _).required _
  · exact ignoresOrder_text.nullable.defaulted _ _
  · exact Reference.ignoresOrder.nullable.defaulted _ _
  · exact Connection.ignoresOrder.nullable.defaulted _ _
  · exact ignoresMemberOrder_onlyKnown _

/-! What is filled in before the check -/

variable {ms ns : Entries Text Json}

theorem isBlankAt_eq (h : Json.SameMembers ms ns) (label : Text) :
    isBlankAt ms label = isBlankAt ns label := by
  unfold isBlankAt
  rw [Json.map_isBlank_eq (h label)]

theorem isEnumType_eq {o o' : Option Json} (h : Option.Rel Json.Reordered o o') :
    isEnumType o = isEnumType o' := by
  cases h with
  | none => rfl
  | some hvw => cases hvw <;> rfl

theorem sameMembers_defaultTo (h : Json.SameMembers ms ns) (label source : Text) :
    Json.SameMembers (defaultTo label source ms) (defaultTo label source ns) := by
  unfold defaultTo
  rw [isBlankAt_eq h]
  cases hv : ms.get? source with
  | none =>
    rw [h.of_none hv]
    exact h
  | some v =>
    obtain ⟨w, hw, hvw⟩ := h.of_some hv
    simp only [hw, hvw.isBlank_eq]
    split
    · exact h.put label hvw
    · exact h

theorem sameMembers_normalize (h : Json.SameMembers ms ns) :
    Json.SameMembers (normalize ms) (normalize ns) := by
  have hd := sameMembers_defaultTo h "target_name" "name"
  unfold normalize
  simp only [isEnumType_eq (hd "declared_type")]
  split
  · exact hd.put _ (.refl _)
  · exact hd

theorem ignoresOrder : IgnoresOrder check := by
  refine IgnoresMemberOrder.record ?_ _
  intro ms ns f hms h
  rw [ensure_eq_accepted_iff] at h ⊢
  exact ⟨checkMembers_ignoresOrder _ _ f (sameMembers_normalize hms) h.1, h.2⟩

end Field

/-! Schemas -/

namespace Draft

variable {ms ns : Entries Text Json} {v w : Json}

theorem accepts_reordered {fields : Entries Text Field}
    (h : List.Forall₂ (fun m n => m.1 = n.1 ∧ m.2.Reordered n.2) ms ns)
    (ha : List.Forall₂ Schema.Accepts ms fields) : List.Forall₂ Schema.Accepts ns fields := by
  induction h generalizing fields with
  | nil => exact ha
  | cons hmn _ ih =>
    cases ha with
    | cons hm hms =>
      exact .cons ⟨hmn.1 ▸ hm.1, Field.ignoresOrder _ _ _ hmn.2 hm.2⟩ (ih hms)

theorem checkTable_tableOf {fields : Entries Text Field} (h : v.Reordered w) (hd : v.Distinct)
    (ha : Schema.checkTable (tableOf v) = accepted fields) :
    ∃ fields', Schema.checkTable (tableOf w) = accepted fields' ∧ fields.Perm fields' := by
  cases h with
  | refl => exact ⟨fields, ha, List.Perm.refl fields⟩
  | arr => contradiction
  | obj labels members =>
    obtain ⟨ps, hps, hpns⟩ := Json.Reordered.members_perm (.obj labels members) hd.here
    obtain ⟨fields', hf, hp⟩ := List.perm_comp_forall₂ hps.symm (Schema.checkTable_tableOf_iff.1 ha)
    exact ⟨fields', Schema.checkTable_tableOf_iff.2 (accepts_reordered hpns hf), hp.symm⟩

/-- The same attributes, but for the order of members and of fields. -/
structure SameAttributes (d e : Draft) : Prop where
  name : Option.Rel Json.Reordered d.name e.name
  targetName : Option.Rel Json.Reordered d.targetName e.targetName
  table : ∀ fields, Schema.checkTable d.table = accepted fields →
    ∃ fields', Schema.checkTable e.table = accepted fields' ∧ fields.Perm fields'
  index : ∀ i, d.checkIndex = accepted i → e.checkIndex = accepted i
  others : d.others = [] → e.others = []

theorem isGiven_eq {o o' : Option Json} (h : Option.Rel Json.Reordered o o') :
    isGiven o = isGiven o' := by
  cases h with
  | none => rfl
  | some hvw => simp only [isGiven, hvw.isBlank_eq]

namespace SameAttributes

variable {d e : Draft} {s : Schema}

theorem normalize (h : SameAttributes d e) : SameAttributes d.normalize e.normalize := by
  unfold Draft.normalize
  rw [isGiven_eq h.name, isGiven_eq h.targetName]
  split
  · exact { h with targetName := h.name }
  · exact h

theorem checkAttributes (h : SameAttributes d e) (ha : d.checkAttributes = accepted s) :
    ∃ t, e.checkAttributes = accepted t ∧ s.Reordered t := by
  obtain ⟨hname, htarget, htable, hindex, hothers⟩ := checkAttributes_eq_accepted_iff.1 ha
  obtain ⟨fields, hfields, hp⟩ := h.table _ htable
  refine ⟨{ s with fields := fields }, checkAttributes_eq_accepted_iff.2 ⟨?_, ?_, hfields,
    h.index _ hindex, h.others hothers⟩, ⟨rfl, rfl, hp, rfl⟩⟩
  · have hn := h.name
    unfold checkName at hname ⊢
    generalize d.name = n, e.name = n' at hn hname ⊢
    cases hn with
    | none => exact hname
    | some hvw => exact ignoresOrder_nonEmptyText _ _ _ hvw hname
  · have ht := h.targetName
    unfold checkTargetName at htarget ⊢
    generalize d.targetName = t, e.targetName = t' at ht htarget ⊢
    cases ht with
    | none => exact htarget
    | some hvw => exact ignoresOrder_text _ _ _ hvw htarget

theorem check (h : SameAttributes d e) (hd : d.table.Distinct) (hc : d.check = .ok s) :
    ∃ t, e.check = .ok t ∧ s.Reordered t ∧ s.WellFormed :=
  check_of_attributes hd hc h.normalize.checkAttributes

end SameAttributes

theorem sameAttributes_ofMembers (h : Json.SameMembers ms ns) (hd : (Json.obj ms).Distinct) :
    SameAttributes (ofMembers ms) (ofMembers ns) := by
  unfold ofMembers
  rw [h.contains_eq, h.contains_eq]
  generalize (if !ns.contains "fields" && ns.contains "field_map" then "field_map" else "fields" :
    String) = label
  constructor
  case name => exact h "name"
  case targetName => exact h "target_model_name"
  case table =>
    intro fields ha
    dsimp only at ha ⊢
    cases hv : ms.get? label with
    | none =>
      rw [hv] at ha
      rw [h.of_none hv]
      exact ⟨fields, ha, List.Perm.refl fields⟩
    | some v =>
      obtain ⟨w, hw, hvw⟩ := h.of_some hv
      rw [hv] at ha
      rw [hw]
      exact checkTable_tableOf hvw ((Json.everywhere_obj_iff.1 hd).2 _ (Entries.mem_of_get? hv)) ha
  case index =>
    intro i hi
    unfold checkIndex at hi ⊢
    dsimp only at hi ⊢
    cases hv : ms.get? "model_index" with
    | none =>
      rw [hv] at hi
      rw [h.of_none hv]
      exact hi
    | some v =>
      obtain ⟨w, hw, hvw⟩ := h.of_some hv
      rw [hv] at hi
      rw [hw]
      exact Index.ignoresOrder v w i hvw hi
  case others =>
    simp only [List.filter_eq_nil_iff]
    exact fun ho l hl => ho l (h.mem_keys_iff.2 hl)

end Draft

namespace Schema

variable {d d' : Json}

theorem ofJson_reordered {s : Schema} (h : d.Reordered d') (hd : d.Distinct)
    (hs : ofJson d = .ok s) : ∃ t, ofJson d' = .ok t ∧ s.Reordered t ∧ s.WellFormed := by
  obtain ⟨ms, rfl, hl, hc⟩ := ofJson_eq_ok_iff.1 hs
  obtain ⟨ns, rfl⟩ : ∃ ns, d' = .obj ns := by
    cases h with
    | refl => exact ⟨ms, rfl⟩
    | obj => exact ⟨_, rfl⟩
  have hms := h.sameMembers
  obtain ⟨t, ht, hr, hw⟩ := (Draft.sameAttributes_ofMembers hms hd).check (table_ofMembers hd).1 hc
  exact ⟨t, ofJson_eq_ok_iff.2 ⟨ns, rfl, fun l hn => hl l (hms.mem_keys_iff.2 hn), ht⟩, hr, hw⟩

theorem agree_ofJson (h : d.Reordered d') (hd : d.Distinct) : Agree (ofJson d) (ofJson d') := by
  refine Agree.of_reordered (fun s hs => ofJson_reordered h hd hs) fun t ht => ?_
  obtain ⟨s, hs, -⟩ := ofJson_reordered h.symm (h.distinct hd) ht
  exact ⟨s, hs⟩

theorem load_of_ofBytes {depth : Depth} {p : Path} {bytes : List UInt8} {j : Json}
    (h : Json.ofBytes depth bytes = .ok j) :
    ∃ f, Snapshot.load depth p bytes = (ofJson j).mapError f := by
  unfold Snapshot.load
  rw [h]
  exact ⟨_, rfl⟩

/-- Two values that differ in the order of members, at any depth, are both refused or are read as
schemas that agree in everything, and so are files that hold them. -/
theorem read_in_any_order (h : d.Reordered d') (hd : d.Distinct) :
    Agree (ofJson d) (ofJson d') ∧
      ∀ (depth : Depth) (p p' : Path) (bytes bytes' : List UInt8),
        Json.ofBytes depth bytes = .ok d → Json.ofBytes depth bytes' = .ok d' →
          Agree (Snapshot.load depth p bytes) (Snapshot.load depth p' bytes') := by
  refine ⟨agree_ofJson h hd, fun depth p p' bytes bytes' hb hb' => ?_⟩
  obtain ⟨f, hf⟩ := load_of_ofBytes (p := p) hb
  obtain ⟨g, hg⟩ := load_of_ofBytes (p := p') hb'
  rw [hf, hg]
  exact (agree_ofJson h hd).mapError f g

def postJson : Json := .obj [
  ("name", .str "Post"),
  ("fields", .obj [
    ("title", .obj [("name", .str "title"), ("declared_type", .str "string")]),
    ("author", .obj [("name", .str "author"), ("declared_type", .str "model"),
      ("relationship", .obj [("target_model", .str "User"), ("kind", .str "has_one")])])]),
  ("model_index", .obj [("index_name", .null), ("index_field_names", .arr [.str "title"])])]

def postJsonBack : Json := .obj [
  ("model_index", .obj [("index_field_names", .arr [.str "title"]), ("index_name", .null)]),
  ("fields", .obj [
    ("author", .obj [
      ("relationship", .obj [("kind", .str "has_one"), ("target_model", .str "User")]),
      ("declared_type", .str "model"), ("name", .str "author")]),
    ("title", .obj [("declared_type", .str "string"), ("name", .str "title")])]),
  ("name", .str "Post")]

theorem reordered_post : postJson.Reordered postJsonBack := by
  have hpair {k l : Text} {v w v' w' : Json} (hkl : k ≠ l) (hv : v.Reordered v')
      (hw : w.Reordered w') : (Json.obj [(k, v), (l, w)]).Reordered (.obj [(l, w'), (k, v')]) :=
    .of_perm (List.Perm.swap _ _ _) (by simpa [Entries.keys] using hkl)
      (.cons ⟨rfl, hw⟩ (.cons ⟨rfl, hv⟩ .nil))
  refine .of_perm (List.reverse_perm _).symm (by decide) (.cons ⟨rfl, ?_⟩ (.cons ⟨rfl, ?_⟩
    (.cons ⟨rfl, .refl _⟩ .nil)))
  · exact hpair (by decide) (.refl _) (.refl _)
  · refine hpair (by decide) (hpair (by decide) (.refl _) (.refl _)) ?_
    refine .of_perm (List.reverse_perm _).symm (by decide) (.cons ⟨rfl, ?_⟩ (.cons ⟨rfl, .refl _⟩
      (.cons ⟨rfl, .refl _⟩ .nil)))
    exact hpair (by decide) (.refl _) (.refl _)

theorem readable_post :
    postJson.Everywhere Json.IsReadable ∧ postJsonBack.Everywhere Json.IsReadable := by
  constructor <;>
    simp [postJson, postJsonBack, Json.isReadable_iff, Json.IsFloat, Json.texts,
      Json.HasDistinctLabels]

theorem nestsWithin_post : postJson.NestsWithin 5 ∧ postJsonBack.NestsWithin 5 := by
  constructor <;> simp [postJson, postJsonBack]

theorem read_in_any_order_post :
    ∃ bytes bytes', Json.ofBytes .standard bytes = .ok postJson ∧
      Json.ofBytes .standard bytes' = .ok postJsonBack ∧
      (ofJson postJson).isOk = true ∧ Agree (ofJson postJson) (ofJson postJsonBack) ∧
      Agree (Snapshot.load .standard Snapshot.defaultPath bytes)
        (Snapshot.load .standard Snapshot.defaultPath bytes') := by
  have hd : postJson.Distinct := readable_post.1.imp fun _ hv => hv.labels
  have hlevels : 5 ≤ Depth.standard.limit := Depth.standard.five_le_limit
  have hb := Json.ofBytes_layout readable_post.1 (nestsWithin_post.1.mono hlevels)
  have hb' := Json.ofBytes_layout readable_post.2 (nestsWithin_post.2.mono hlevels)
  obtain ⟨hvalue, hfile⟩ := read_in_any_order reordered_post hd
  exact ⟨_, _, hb, hb', by decide +kernel, hvalue, hfile _ _ _ _ _ hb hb'⟩

end Schema

end CanonicalSchema
