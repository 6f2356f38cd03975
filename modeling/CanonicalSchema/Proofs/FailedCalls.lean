import CanonicalSchema.Proofs.BuilderRun

/-!
Calls on a builder that fail. They leave the target name and the index alone, and the collected
fields too, with one exception: a sequence of pairs is written pair by pair, so the pairs in front
of an item that is none stay written. An object is always read whole.
-/

namespace CanonicalSchema

namespace Table

/-- A sequence of two parts, of which the first can be a key. -/
def IsPair (item : Json) (entry : Key × Json) : Prop :=
  ∃ label, item.items? = some [label, entry.2] ∧ Key.ofJson? label = some entry.1

/-- What keeps material from being read whole, and the entries that are read in front of it. -/
inductive Broken : Json → Entries Key Json → Malformed → Prop
  | notIterable {j : Json} (h : j.items? = none) : Broken j [] (.notIterable j.typeName)
  | item {j bad : Json} {before after : List Json} {front : Entries Key Json} {cause : Malformed}
      (ho : ∀ members, j ≠ .obj members) (hi : j.items? = some (before ++ bad :: after))
      (hf : List.Forall₂ IsPair before front) (hb : pair before.length bad = .error cause) :
      Broken j front cause

theorem isPair_of_pair {position : Nat} {item : Json} {entry : Key × Json}
    (h : pair position item = .ok entry) : IsPair item entry := by
  unfold pair at h
  split at h
  · cases h
  · next label v hi =>
    split at h
    · next key hk =>
      cases h
      exact ⟨label, hi, hk⟩
    · cases h
  · cases h

/-- The positions are counted on from that of the first item. -/
theorem broken_of_pairs {start : Nat} {items : List Json} {front : Entries Key Json}
    {cause : Malformed} (h : pairs start items = (front, some cause)) :
    ∃ before bad after, items = before ++ bad :: after ∧ List.Forall₂ IsPair before front ∧
      pair (start + before.length) bad = .error cause := by
  induction items generalizing start front with
  | nil => cases h
  | cons item items ih =>
    unfold pairs at h
    split at h
    · next hp =>
      cases h
      exact ⟨[], item, items, rfl, .nil, hp⟩
    · next entry hp =>
      obtain ⟨hentries, hfault⟩ := Prod.mk.inj h
      obtain ⟨before, bad, after, rfl, hf, hb⟩ := ih (Prod.ext rfl hfault)
      refine ⟨item :: before, bad, after, rfl, hentries ▸ .cons (isPair_of_pair hp) hf, ?_⟩
      rwa [List.length_cons, Nat.add_comm before.length, ← Nat.add_assoc]

theorem broken_of_readable {j : Json} {front : Entries Key Json} {cause : Malformed}
    (h : readable j = (front, some cause)) : Broken j front cause := by
  unfold readable at h
  split at h
  · cases h
  · next ho =>
    split at h
    · next items hi =>
      obtain ⟨before, bad, after, rfl, hf, hb⟩ := broken_of_pairs h
      exact .item ho hi hf (Nat.zero_add before.length ▸ hb)
    · next hi =>
      cases h
      exact .notIterable hi

end Table

namespace Builder

inductive CallFault where
  | malformed (cause : Malformed)
  | notBuilt (fault : BuildFault)

def fault? (b : Builder) (depth : Depth) : Call → Option CallFault
  | .step (.setTargetName _) => none
  | .step (.addField _) => none
  | .step (.addFields material) => (b.addFields material).2.map .malformed
  | .step (.setIndex name fields) => (b.setIndex name fields).2.map .malformed
  | .build =>
    match b.build depth with
    | .ok _ => none
    | .error fault => some (.notBuilt fault)

/-- The builder that a call leaves, also where the call fails. -/
def afterCall (b : Builder) (depth : Depth) (c : Call) : Builder := (run depth b [c]).1

variable {b : Builder} {depth : Depth} {fault : CallFault}

theorem broken_of_addFields {j : Json}
    (h : b.fault? depth (.step (.addFields (.loose j))) = some fault) :
    ∃ front cause, Table.Broken j front cause ∧ fault = .malformed cause ∧
      b.afterCall depth (.step (.addFields (.loose j))) =
        { b with fields := b.fields.merge (FieldMaterial.described front) } := by
  obtain ⟨cause, hc, rfl⟩ := Option.map_eq_some_iff.1 h
  have hr : Table.readable j = ((Table.readable j).1, some cause) := Prod.ext rfl hc
  exact ⟨_, cause, Table.broken_of_readable hr, rfl, rfl⟩

theorem setIndex_of_fault {name fields : Json}
    (h : b.fault? depth (.step (.setIndex name fields)) = some fault) :
    b.afterCall depth (.step (.setIndex name fields)) = b := by
  obtain ⟨cause, hc, -⟩ := Option.map_eq_some_iff.1 h
  change (b.setIndex name fields).1 = b
  unfold setIndex at hc ⊢
  split at hc
  · cases hc
  · rfl

/-- A call that fails leaves the builder as it was, unless it is a sequence of pairs up to an item
that is none: then those pairs have been written, and nothing else has changed. An object does not
fail, nor does a table with ready fields. -/
theorem failed_call_leaves (b : Builder) (depth : Depth) :
    (∀ c fault, b.fault? depth c = some fault → b.afterCall depth c = b ∨
      ∃ j front cause, c = .step (.addFields (.loose j)) ∧ fault = .malformed cause ∧ front ≠ [] ∧
        Table.Broken j front cause ∧ b.afterCall depth c =
          { b with fields := b.fields.merge (FieldMaterial.described front) }) ∧
      (∀ members, b.fault? depth (.step (.addFields (.loose (.obj members)))) = none) ∧
      ∀ es, b.fault? depth (.step (.addFields (.table es))) = none := by
  refine ⟨fun c fault h => ?_, fun _ => rfl, fun _ => rfl⟩
  match c with
  | .step (.setTargetName _) => cases h
  | .step (.addField _) => cases h
  | .step (.setIndex _ _) => exact Or.inl (setIndex_of_fault h)
  | .build => exact Or.inl rfl
  | .step (.addFields (.table _)) => cases h
  | .step (.addFields (.loose j)) =>
    obtain ⟨front, cause, hbroken, hfault, hafter⟩ := broken_of_addFields h
    by_cases hfront : front = []
    · -- Nothing was read, so nothing is written.
      subst hfront
      exact Or.inl hafter
    · exact Or.inr ⟨j, front, cause, rfl, hfault, hfront, hbroken, hafter⟩

def titleDescription : Json :=
  .obj [("name", .str "title"), ("declared_type", .str "string")]

def brokenTable : Json := .arr [
  .arr [.str "title", titleDescription],
  .arr [.str "id", .obj [("name", .str "id"), ("declared_type", .str "id")]],
  .int 5]

def headed : Builder := (start (.str "Post") .standard).addField (.plain "title" "heading")

theorem failed_call_leaves_headed :
    headed.fault? .standard (.step (.addFields (.loose brokenTable))) =
        some (.malformed (.pairNotSequence 2)) ∧
      ∃ front cause, front ≠ [] ∧ Table.Broken brokenTable front cause ∧
        headed.afterCall .standard (.step (.addFields (.loose brokenTable))) =
          { headed with fields := headed.fields.merge (FieldMaterial.described front) } := by
  have hfault : headed.fault? .standard (.step (.addFields (.loose brokenTable))) =
      some (.malformed (.pairNotSequence 2)) := rfl
  refine ⟨hfault, ?_⟩
  rcases (failed_call_leaves headed .standard).1 _ _ hfault with hkept |
    ⟨j, front, cause, hj, -, hfront, hbroken, hafter⟩
  · have hkeys := congrArg (fun b => b.fields.keys) hkept
    exact absurd hkeys (by decide)
  · cases hj
    exact ⟨front, cause, hfront, hbroken, hafter⟩

theorem title_kept_of_failed_call :
    (start (.str "Post") .standard).fault? .standard
        (.step (.addFields (.loose (.arr [.arr [.str "title", titleDescription], .int 5])))) =
      some (.malformed (.pairNotSequence 1)) ∧
    (start (.str "Post") .standard).fields = [] ∧
    ((start (.str "Post") .standard).afterCall .standard
        (.step (.addFields
          (.loose (.arr [.arr [.str "title", titleDescription], .int 5]))))).fields =
      [(.str "title", .described titleDescription)] :=
  ⟨rfl, rfl, rfl⟩

end Builder

end CanonicalSchema
