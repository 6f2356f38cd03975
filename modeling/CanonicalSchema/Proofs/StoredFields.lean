import CanonicalSchema.Proofs.ConstructedSchema

/-!
What the fields of a schema are stored as. However a schema came about, each of its fields came from
a description; what the description leaves out or leaves blank is filled in before it is checked, so
that the stored fields need no defaults any more.
-/

namespace CanonicalSchema

open Checked

namespace Field

/-- What can be relied on in a field that is stored, whatever it was described as. -/
structure Stored (f : Field) : Prop where
  targetName : f.targetName.isEmpty = false
  isEnum : f.type = .enum → f.isEnum = true
  oneLink : ∀ r, f.reference = some r → r.kind = .belongsTo → f.connection = none
  referenceLimit : ∀ r n, f.reference = some r → r.limit = some n → 0 < n
  connectionLimit : ∀ c n, f.connection = some c → c.limit = some n → 0 < n
  referenceTarget : ∀ r, f.reference = some r → r.target ≠ ""
  connectionTarget : ∀ c, f.connection = some c → c.target ≠ ""

def SuppliesTargetName (j : Json) (target : Text) : Prop :=
  target.isEmpty = false ∧ ∃ ms : Entries Text Json, j = .obj ms ∧
    ms.get? "target_name" = some (.str target)

/-- A description with a relationship of the kind that is also the default. -/
def DescribesForeignKey (j : Json) : Prop :=
  ∃ ms r : Entries Text Json, j = .obj ms ∧ ms.get? "relationship" = some (.obj r) ∧
    (r.get? "kind" = none ∨ r.get? "kind" = some (.str LinkKind.belongsTo.label))

/-- What a description has to do with the field that it was accepted as. -/
structure StoredFrom (f : Field) (j : Json) : Prop where
  accepted : check j = .accepted f
  targetName : f.targetName ≠ .ofString f.name → SuppliesTargetName j f.targetName
  oneLink : DescribesForeignKey j → f.connection = none

variable {j : Json} {f : Field}

theorem Normal.connection_eq_none (h : f.Normal) {r : Reference} (hr : f.reference = some r)
    (hk : r.kind = .belongsTo) : f.connection = none := by
  have hconnected := h.isConnected_of_isForeignKey (isForeignKey_iff.2 ⟨r, hr, hk⟩)
  exact Option.isNone_iff_eq_none.1 (Option.isSome_eq_false_iff.1 hconnected)

theorem Normal.stored (h : f.Normal) : f.Stored where
  targetName := h.targetName
  isEnum := h.isEnum
  oneLink := fun _ => h.connection_eq_none
  referenceLimit := fun r n hr => (h.reference r hr).limit n
  connectionLimit := fun c n hc => (h.connection c hc).limit n
  referenceTarget := fun r hr => (h.reference r hr).target
  connectionTarget := fun c hc => (h.connection c hc).target

theorem suppliesTargetName_of_check (h : check j = accepted f)
    (hne : f.targetName ≠ .ofString f.name) : SuppliesTargetName j f.targetName := by
  obtain ⟨ms, rfl, -, hm, -⟩ := check_eq_accepted_iff.1 h
  obtain ⟨hname, htarget, -⟩ := checkMembers_eq_accepted_iff.1 hm
  obtain ⟨_, hget, hj⟩ := required_eq_accepted_iff.1 hname
  obtain ⟨rfl, hnonempty, -⟩ := checkName_eq_accepted_iff.1 hj
  rw [get?_normalize_of_ne (by decide) (by decide)] at hget
  have hfilled := get?_normalize_targetName hget (Text.isEmpty_ofString hnonempty)
  by_cases hb : isBlankAt ms "target_name" = true
  · rw [if_pos hb] at hfilled
    have hsame := text_eq_accepted_iff.1 (check_of_given hfilled htarget)
    exact absurd (Json.str.inj hsame).symm hne
  · rw [if_neg hb] at hfilled
    obtain ⟨target, hgiven, hblank⟩ := exists_of_not_isBlankAt hb
    rw [hgiven] at hfilled
    obtain rfl := text_eq_accepted_iff.1 (check_of_given hfilled htarget)
    exact ⟨hblank, ms, rfl, hgiven⟩

theorem kind_of_blank {r : Entries Text Json} {kind : LinkKind}
    (hr : r.get? "kind" = none ∨ r.get? "kind" = some (.str LinkKind.belongsTo.label))
    (h : defaulted r "kind" .belongsTo linkKind = accepted kind) : kind = .belongsTo := by
  rcases hr with hr | hr
  · obtain ⟨_, hsome, -⟩ | ⟨-, hdefault⟩ := defaulted_eq_accepted_iff.1 h
    · rw [hr] at hsome
      contradiction
    · exact hdefault.symm
  · have hkind := check_of_given hr h
    rw [linkKind_label, accepted_inj] at hkind
    exact hkind.symm

theorem connection_eq_none_of_check (h : check j = accepted f) (hj : DescribesForeignKey j) :
    f.connection = none := by
  obtain ⟨ms, r, rfl, hr, hkind⟩ := hj
  obtain ⟨_, hms, -, hm, -⟩ := check_eq_accepted_iff.1 h
  cases hms
  obtain ⟨-, -, -, -, -, -, -, -, hreference, -⟩ := checkMembers_eq_accepted_iff.1 hm
  rw [← get?_normalize_of_ne (by decide) (by decide)] at hr
  have hchecked := check_of_given hr hreference
  cases hf : f.reference with
  | none =>
    rw [hf] at hchecked
    simp [nullable, map_eq_accepted_iff] at hchecked
  | some reference =>
    rw [hf] at hchecked
    obtain ⟨_, hr', -, -, hk, -⟩ :=
      Reference.check_eq_accepted_iff.1 (nullable_eq_some_iff.1 hchecked).2
    cases hr'
    exact (normal_of_check h).connection_eq_none hf (kind_of_blank hkind hk)

theorem storedFrom_of_check (h : check j = accepted f) : f.StoredFrom j :=
  ⟨h, suppliesTargetName_of_check h, connection_eq_none_of_check h⟩

end Field

/-! Where the fields of a schema came from -/

/-- A description comes from itself, a ready field from any description it is accepted from. -/
def FieldSource.CameFrom : FieldSource → Json → Prop
  | described j, j' => j = j'
  | ready f, j => Field.check j = accepted f

def FieldTable.sources : FieldTable → Entries Key FieldSource
  | absent => []
  | entries es => es
  | notTable => []

namespace FieldSource

variable {source : FieldSource} {f : Field} {j : Json}

theorem exists_cameFrom (h : source.FromJson) : ∃ j, source.CameFrom j := by
  cases source with
  | described j => exact ⟨j, rfl⟩
  | ready f => exact h

theorem CameFrom.check_eq (h : source.CameFrom j) (hc : source.check = accepted f) :
    Field.check j = accepted f := by
  cases source with
  | described j' =>
    cases h
    exact hc
  | ready f' =>
    cases hc
    exact h

end FieldSource

namespace FieldTable

variable {table : FieldTable}

theorem sources_fromJson (h : table.FromJson) : ∀ e ∈ table.sources, e.2.FromJson := by
  cases table with
  | absent => exact List.forall_mem_nil _
  | entries es => exact h
  | notTable => exact List.forall_mem_nil _

theorem sources_checksTo {fields : Entries Text Field}
    (h : Schema.checkTable table = accepted fields) :
    List.Forall₂ Schema.ChecksTo table.sources fields := by
  cases table with
  | absent =>
    cases h
    exact .nil
  | entries es => exact Schema.checkTable_entries_iff.1 h
  | notTable => cases h

end FieldTable

theorem Draft.checksTo_of_check {d : Draft} {s : Schema} (h : d.check = .ok s) :
    List.Forall₂ Schema.ChecksTo d.table.sources s.fields := by
  obtain ⟨hattributes, -⟩ := check_eq_ok_iff.1 h
  obtain ⟨-, -, htable, -, -⟩ := checkAttributes_eq_accepted_iff.1 hattributes
  rw [normalize_table] at htable
  exact FieldTable.sources_checksTo htable

namespace Schema

/-- The ways to a schema, with the sources of its fields under the keys that were given to them. -/
inductive ConstructedFrom : Entries Key FieldSource → Schema → Prop
  | built {d : Description} {depth : Depth} {es : Entries Key FieldSource} {s : Schema}
      (hd : d.FromJson) (hr : d.fields.read = .ok es) (h : d.build depth = .ok s) :
      ConstructedFrom es s
  | collected {name : Json} {options : Options} {steps : List Builder.Step} {depth : Depth}
      {s : Schema} (hs : ∀ step ∈ steps, step.FromJson)
      (h : ((Builder.start name options).afterAll steps).build depth = .ok s) :
      ConstructedFrom ((Builder.start name options).afterAll steps).fields s
  | drafted {d : Draft} {s : Schema} (hd : d.table.Distinct) (ht : d.table.FromJson)
      (h : d.check = .ok s) : ConstructedFrom d.table.sources s
  | validated {ms : Entries Text Json} {s : Schema}
      (hj : (Json.obj ms).Everywhere Json.HasDistinctLabels) (h : ofJson (.obj ms) = .ok s) :
      ConstructedFrom (Draft.ofMembers ms).table.sources s
  | loaded {depth : Depth} {path : Path} {bytes : List UInt8} {ms : Entries Text Json} {s : Schema}
      (hb : Json.ofBytes depth bytes = .ok (.obj ms)) (h : Snapshot.load depth path bytes = .ok s) :
      ConstructedFrom (Draft.ofMembers ms).table.sources s

/-- An entry that is stored, under the key and from the description that were given for it. -/
def Stores (given : Key × FieldSource) (entry : Text × Field) : Prop :=
  given.1 = .str entry.1 ∧ (∃ j, given.2.CameFrom j) ∧
    ∀ j, given.2.CameFrom j → entry.2.StoredFrom j

structure Stored (s : Schema) : Prop where
  targetName : s.targetName.isEmpty = false
  fields : ∀ f ∈ s.fields.values, f.Stored

variable {s : Schema} {sources : Entries Key FieldSource}

theorem constructed_iff : s.Constructed ↔ ∃ sources, ConstructedFrom sources s := by
  constructor
  · intro h
    cases h with
    | built hd h =>
      obtain ⟨_, es, -, hr, -⟩ :=
        Description.checked_eq_ok_iff.1 (Description.build_eq_ok_iff.1 h).1
      exact ⟨es, .built hd hr h⟩
    | collected hs h => exact ⟨_, .collected hs h⟩
    | drafted hd ht h => exact ⟨_, .drafted hd ht h⟩
    | validated hj h =>
      obtain ⟨ms, rfl, -, -⟩ := ofJson_eq_ok_iff.1 h
      exact ⟨_, .validated hj h⟩
    | loaded h =>
      obtain ⟨j, hb, hs⟩ := Snapshot.ofJson_of_load h
      obtain ⟨ms, rfl, -, -⟩ := ofJson_eq_ok_iff.1 hs
      exact ⟨_, .loaded hb h⟩
  · rintro ⟨sources, h⟩
    cases h with
    | built hd _ h => exact .built hd h
    | collected hs h => exact .collected hs h
    | drafted hd ht h => exact .drafted hd ht h
    | validated hj h => exact .validated hj h
    | loaded _ h => exact .loaded h

theorem checksTo_of_ofJson {ms : Entries Text Json} (h : ofJson (.obj ms) = .ok s) :
    List.Forall₂ ChecksTo (Draft.ofMembers ms).table.sources s.fields := by
  obtain ⟨_, hms, -, hc⟩ := ofJson_eq_ok_iff.1 h
  cases hms
  exact Draft.checksTo_of_check hc

theorem checksTo_of_build {d : Description} {depth : Depth} {es : Entries Key FieldSource}
    (hr : d.fields.read = .ok es) (h : d.build depth = .ok s) :
    List.Forall₂ ChecksTo es s.fields := by
  obtain ⟨index, es', -, hr', hc⟩ :=
    Description.checked_eq_ok_iff.1 (Description.build_eq_ok_iff.1 h).1
  cases hr.symm.trans hr'
  exact Draft.checksTo_of_check hc

theorem ConstructedFrom.checksTo (h : ConstructedFrom sources s) :
    List.Forall₂ ChecksTo sources s.fields := by
  cases h with
  | built _ hr h => exact checksTo_of_build hr h
  | collected _ h => exact checksTo_of_build rfl h
  | drafted _ _ h => exact Draft.checksTo_of_check h
  | validated _ h => exact checksTo_of_ofJson h
  | loaded hb h =>
    obtain ⟨j, hj, hs⟩ := Snapshot.ofJson_of_load h
    cases hb.symm.trans hj
    exact checksTo_of_ofJson hs

theorem ConstructedFrom.fromJson (h : ConstructedFrom sources s) :
    ∀ e ∈ sources, e.2.FromJson := by
  cases h with
  | built hd hr _ => exact hd.ready _ hr
  | @collected name options _ _ _ hs _ =>
    exact ((Builder.collected_start name options).afterAll hs).fromJson
  | drafted _ ht _ => exact FieldTable.sources_fromJson ht
  | validated hj _ => exact FieldTable.sources_fromJson (table_ofMembers hj).2
  | loaded hb _ =>
    exact FieldTable.sources_fromJson (table_ofMembers (Json.distinct_of_ofBytes hb)).2

theorem ConstructedFrom.stores (h : ConstructedFrom sources s) :
    List.Forall₂ Stores sources s.fields := by
  refine ((List.forall₂_and_left _ _).2 ⟨h.fromJson, h.checksTo⟩).imp ?_
  rintro given entry ⟨hfrom, hkey, hchecked⟩
  refine ⟨hkey, FieldSource.exists_cameFrom hfrom, fun j hj => ?_⟩
  exact Field.storedFrom_of_check (hj.check_eq hchecked)

theorem Normal.stored (h : s.Normal) : s.Stored where
  targetName := h.targetName
  fields := by
    intro f hf
    obtain ⟨e, he, rfl⟩ := List.mem_map.1 hf
    exact (h.fields e he).stored

/-- Every schema is stored in full, whatever was left out of its descriptions; and however it came
about, each of its fields is stored from what was described for it. -/
theorem Constructed.stored_in_full (h : s.Constructed) :
    s.Stored ∧ (∃ sources, ConstructedFrom sources s) ∧
      ∀ sources, ConstructedFrom sources s → List.Forall₂ Stores sources s.fields :=
  ⟨h.normal.stored, constructed_iff.1 h, fun _ hfrom => hfrom.stores⟩

def blankMembers : Entries Text Json := [
  ("name", .str "Post"),
  ("target_model_name", .int 0),
  ("fields", .obj [
    ("status", .obj [("name", .str "status"), ("target_name", .obj []),
      ("declared_type", .str "enum"), ("is_enum", .str "maybe")]),
    ("author", .obj [("name", .str "author"), ("target_name", .str "author_id"),
      ("declared_type", .str "model"),
      ("relationship", .obj [("target_model", .str "User"), ("limit", .int 1)])]),
    ("comments", .obj [("name", .str "comments"), ("target_name", .bool false),
      ("declared_type", .str "collection"),
      ("connection", .obj [("relationship", .str "has_many"), ("limit", .int 20),
        ("connection_target", .str "Comment")])])])]

def filledPost : Schema where
  name := "Post"
  targetName := "Post"
  fields := [
    ("status", ⟨"status", "status", .enum, none, false, false, true, false, none, none⟩),
    ("author", ⟨"author", "author_id", .model, none, false, false, false, false,
      some ⟨"User", .belongsTo, some 1, none⟩, none⟩),
    ("comments", ⟨"comments", "comments", .collection, none, false, false, false, false, none,
      some ⟨none, none, none, none, some 20, [], .hasMany, "Comment"⟩⟩)]
  index := .empty

theorem distinct_blankMembers : (Json.obj blankMembers).Everywhere Json.HasDistinctLabels := by
  simp [blankMembers, Json.everywhere_obj_iff, Json.HasDistinctLabels]

theorem stored_in_full_post :
    filledPost.Constructed ∧ filledPost.Stored ∧
      List.Forall₂ Stores (Draft.ofMembers blankMembers).table.sources filledPost.fields := by
  have h : ofJson (.obj blankMembers) = .ok filledPost := by decide +kernel
  have hconstructed := Constructed.validated distinct_blankMembers h
  obtain ⟨hstored, -, hsources⟩ := hconstructed.stored_in_full
  exact ⟨hconstructed, hstored, hsources _ (.validated distinct_blankMembers h)⟩

end Schema

end CanonicalSchema
