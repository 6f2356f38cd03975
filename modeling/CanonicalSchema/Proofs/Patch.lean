import CanonicalSchema.Proofs.Differences
import CanonicalSchema.Proofs.LastWrites

/-!
A difference as a patch. To delete the removed fields of the old version and to write those of the
new one that were added or changed makes the field map of the new version, nothing less than that
does, and the difference the other way round is the patch back.
-/

namespace CanonicalSchema

namespace Entries

variable {κ ν : Type} [BEq κ]

def without (es : Entries κ ν) (ks : List κ) : Entries κ ν := es.filter fun e => !ks.contains e.1

def pick (es : Entries κ ν) (ks : List κ) : Entries κ ν :=
  ks.filterMap fun k => (es.get? k).map (k, ·)

theorem merge_cons (es : Entries κ ν) (e : κ × ν) (more : Entries κ ν) :
    es.merge (e :: more) = (es.put e.1 e.2).merge more := rfl

theorem keys_without_sublist (es : Entries κ ν) (ks : List κ) :
    (es.without ks).keys.Sublist es.keys :=
  List.filter_sublist.map Prod.fst

variable [LawfulBEq κ]

theorem get?_without (es : Entries κ ν) (ks : List κ) (k : κ) :
    (es.without ks).get? k = if k ∈ ks then none else es.get? k := by
  induction es with
  | nil => simp [without, get?]
  | cons e rest ih =>
    obtain ⟨k', v⟩ := e
    have hcons : without ((k', v) :: rest) ks =
        if k' ∈ ks then without rest ks else (k', v) :: without rest ks := by
      simp [without, List.filter_cons]
    rw [hcons, get?_cons]
    by_cases hk : k = k'
    · subst hk
      by_cases hm : k ∈ ks
      · rw [if_pos hm, ih, if_pos hm, if_pos hm]
      · simp [hm, get?_cons]
    · have hskip : (if k == k' then some v else get? rest k) = get? rest k :=
        if_neg (by simpa using hk)
      rw [hskip, ← ih]
      split
      · rfl
      · rw [get?_cons, if_neg (by simpa using hk)]

theorem get?_merge_pick (es fs : Entries κ ν) (ks : List κ) (k : κ) :
    (es.merge (fs.pick ks)).get? k = if k ∈ ks then (fs.get? k).or (es.get? k) else es.get? k := by
  induction ks generalizing es with
  | nil => rfl
  | cons j ks ih =>
    unfold pick at ih ⊢
    cases hj : fs.get? j with
    | none =>
      rw [List.filterMap_cons_none (by rw [hj]; rfl), ih]
      by_cases hk : k = j
      · subst hk
        simp [hj]
      · simp [hk]
    | some v =>
      rw [List.filterMap_cons_some (by rw [hj]; rfl), merge_cons, ih, get?_put]
      by_cases hk : k = j
      · subst hk
        simp [hj]
      · simp [hk]

end Entries

namespace Schema

variable {s old new : Schema} {removed written : List String} {k : Text}

theorem WellFormed.nodup_fieldNames (h : s.WellFormed) : s.fieldNames.Nodup :=
  ((Field.sort_perm s.fields.values).map Field.name).nodup_iff.2 h.names_nodup

/-- The field map of the old version with some fields deleted and then, for some names, the field of
the new version written. -/
def patched (old new : Schema) (removed written : List String) : Entries Text Field :=
  (old.fields.without (removed.map .ofString)).merge (new.fields.pick (written.map .ofString))

theorem field?_patched (k : Text) :
    (old.patched new removed written).get? k =
      if k ∈ written.map .ofString then
        (new.field? k).or (if k ∈ removed.map .ofString then none else old.field? k)
      else if k ∈ removed.map .ofString then none else old.field? k := by
  unfold patched
  rw [Entries.get?_merge_pick, Entries.get?_without]
  rfl

theorem WellFormed.nodup_keys_patched (h : old.WellFormed) :
    (old.patched new removed written).keys.Nodup :=
  Entries.nodup_keys_merge (h.keys_nodup.sublist (Entries.keys_without_sublist _ _)) _

theorem patched_same_iff (ho : old.WellFormed) (hn : new.WellFormed) :
    (old.patched new removed written).sameEntries new.fields = true ↔
      ∀ k, (old.patched new removed written).get? k = new.field? k := by
  have hp : (old.patched new removed written).keys.Nodup := ho.nodup_keys_patched
  rw [Entries.sameEntries_iff_perm hp hn.keys_nodup]
  constructor
  · exact fun h k => Entries.get?_eq_of_perm h hp k
  · intro h
    apply Entries.perm_of_get?_eq (Entries.apart_of_nodup hp)
      (Entries.apart_of_nodup hn.keys_nodup) h
    exact fun _ _ _ hj => eq_of_beq hj

theorem WellFormed.exists_name (h : s.WellFormed) (hk : (s.field? k).isSome = true) :
    ∃ n : String, k = .ofString n := by
  obtain ⟨f, hf⟩ := Option.isSome_iff_exists.1 hk
  exact ⟨f.name, h.key_eq_name (Entries.mem_of_get? hf)⟩

end Schema

namespace Difference

variable {old new : Schema} {n : String}

/-! What the names in a difference stand for -/

theorem mem_added_iff (hn : new.WellFormed) :
    n ∈ (between old new).added ↔ (new.field? n).isSome = true ∧ old.field? n = none := by
  have hnew : old.fields.contains n = false ↔ old.field? n = none :=
    Option.isSome_eq_false_iff.trans Option.isNone_iff_eq_none
  unfold between
  rw [List.mem_filter, Schema.mem_fieldNames_iff hn, Bool.not_eq_true', hnew]
  rfl

theorem mem_removed_iff (ho : old.WellFormed) :
    n ∈ (between old new).removed ↔ (old.field? n).isSome = true ∧ new.field? n = none :=
  mem_added_iff ho

theorem mem_changed_iff (hn : new.WellFormed) :
    n ∈ (between old new).changed ↔
      (new.field? n).isSome = true ∧ (old.field? n).isSome = true ∧
        old.field? n ≠ new.field? n := by
  unfold between
  rw [List.mem_filter, Schema.mem_fieldNames_iff hn, Bool.and_eq_true, bne_iff_ne]
  rfl

theorem mem_written_iff (hn : new.WellFormed) :
    n ∈ (between old new).added ++ (between old new).changed ↔
      (new.field? n).isSome = true ∧ old.field? n ≠ new.field? n := by
  rw [List.mem_append, mem_added_iff hn, mem_changed_iff hn]
  cases old.field? n <;> cases new.field? n <;> simp

/-! Deleting and writing what a difference says -/

theorem mem_map_ofString_iff {ns : List String} : Text.ofString n ∈ ns.map .ofString ↔ n ∈ ns :=
  List.mem_map_of_injective fun _ _ => Text.ofString_inj.1

theorem field?_patched_between (ho : old.WellFormed) (hn : new.WellFormed) (k : Text) :
    (old.patched new (between old new).removed
      ((between old new).added ++ (between old new).changed)).get? k = new.field? k := by
  rw [Schema.field?_patched]
  by_cases hk : ∃ n : String, k = .ofString n
  · obtain ⟨n, rfl⟩ := hk
    simp only [mem_map_ofString_iff, mem_written_iff hn, mem_removed_iff ho]
    cases hold : old.field? n <;> cases hnew : new.field? n
    case none.none => simp
    case none.some => simp
    case some.none => simp
    case some.some f g =>
      by_cases hfg : f = g <;> simp [hfg]
  · -- What is no text of characters is no key of either version, nor is anything done to it.
    have hnone {s : Schema} (h : s.WellFormed) : s.field? k = none := by
      by_contra hsome
      exact hk (h.exists_name (Option.isSome_iff_ne_none.2 hsome))
    have hnot {ns : List String} : k ∉ ns.map Text.ofString := by
      intro hm
      obtain ⟨n, -, hn⟩ := List.mem_map.1 hm
      exact hk ⟨n, hn.symm⟩
    rw [if_neg hnot, if_neg hnot, hnone ho, hnone hn]

theorem subset_of_patched {removed written : List String} (ho : old.WellFormed)
    (hn : new.WellFormed)
    (h : ∀ k, (old.patched new removed written).get? k = new.field? k) :
    (between old new).removed ⊆ removed ∧
      (between old new).added ++ (between old new).changed ⊆ written := by
  constructor
  · intro n hr
    rw [mem_removed_iff ho] at hr
    by_contra hnot
    rw [← mem_map_ofString_iff] at hnot
    have hk := h n
    rw [Schema.field?_patched, hr.2, if_neg hnot, Option.none_or, ite_self] at hk
    rw [hk] at hr
    exact absurd hr.1 Bool.noConfusion
  · intro n hw
    rw [mem_written_iff hn] at hw
    by_contra hnot
    rw [← mem_map_ofString_iff] at hnot
    have hk := h n
    rw [Schema.field?_patched, if_neg hnot] at hk
    split at hk
    · simp [← hk] at hw
    · exact hw.2 hk

/-- The names in a difference are a patch from the old field map to the new one: they stand once,
in one list, in canonical order, and no other deletions and writes will do without them. -/
structure Patches (d : Difference) (old new : Schema) : Prop where
  nodup : (d.added ++ d.removed ++ d.changed).Nodup
  added : d.added.Sublist new.fieldNames
  removed : d.removed.Sublist old.fieldNames
  changed : d.changed.Sublist new.fieldNames
  applies : (old.patched new d.removed (d.added ++ d.changed)).sameEntries new.fields = true
  least : ∀ removed written, (old.patched new removed written).sameEntries new.fields = true →
    d.removed ⊆ removed ∧ d.added ++ d.changed ⊆ written

structure Reverses (d e : Difference) : Prop where
  added : d.added = e.removed
  removed : d.removed = e.added
  changed : ∀ n, n ∈ d.changed ↔ n ∈ e.changed
  orderChanged : d.orderChanged = e.orderChanged
  indexChanged : d.indexChanged = e.indexChanged

theorem nodup_between (ho : old.WellFormed) (hn : new.WellFormed) :
    ((between old new).added ++ (between old new).removed ++ (between old new).changed).Nodup := by
  have hnames := hn.nodup_fieldNames
  rw [List.nodup_append', List.nodup_append']
  refine ⟨⟨hnames.filter _, ho.nodup_fieldNames.filter _, ?_⟩, hnames.filter _, ?_⟩
  · intro n ha hr
    rw [mem_added_iff hn] at ha
    rw [mem_removed_iff ho, ha.2] at hr
    exact absurd hr.1 Bool.noConfusion
  · intro n har hc
    rw [mem_changed_iff hn] at hc
    rcases List.mem_append.1 har with ha | hr
    · rw [mem_added_iff hn] at ha
      simp [ha.2] at hc
    · rw [mem_removed_iff ho] at hr
      simp [hr.2] at hc

theorem reverses_between (ho : old.WellFormed) (hn : new.WellFormed) :
    (between new old).Reverses (between old new) where
  added := rfl
  removed := rfl
  changed := by
    intro n
    rw [mem_changed_iff ho, mem_changed_iff hn, ne_comm, and_left_comm]
  orderChanged := bne_comm
  indexChanged := bne_comm

/-- The difference of two schemas is the least patch that turns the fields of one into those of the
other, and exchanging the schemas exchanges what is added and what is removed. -/
theorem patches_and_reverses (ho : old.WellFormed) (hn : new.WellFormed) :
    (between old new).Patches old new ∧ (between new old).Reverses (between old new) := by
  refine ⟨?_, reverses_between ho hn⟩
  constructor
  case nodup => exact nodup_between ho hn
  case added => exact List.filter_sublist
  case removed => exact List.filter_sublist
  case changed => exact List.filter_sublist
  case applies =>
    rw [Schema.patched_same_iff ho hn]
    exact field?_patched_between ho hn
  case least =>
    intro removed written h
    exact subset_of_patched ho hn ((Schema.patched_same_iff ho hn).1 h)

/-! Two versions of a model -/

def connectedField (name target : String) : Field :=
  ⟨name, name, .collection, none, false, false, false, false, none,
    some ⟨none, none, none, none, none, [], .hasMany, target⟩⟩

def postWith (fields : List Field) : Schema where
  name := "Post"
  targetName := "Post"
  fields := fields.map fun f => (.ofString f.name, f)
  index := .empty

def firstFields : List Field :=
  [connectedField "authors" "User", .plain "comments" "comments", .plain "title" "title",
    { Field.plain "id" "id" with isPrimaryKey := true }]

def secondFields : List Field :=
  [connectedField "comments" "Comment", .plain "authors" "authors", .plain "text" "text",
    { Field.plain "id" "id" with isPrimaryKey := true }]

theorem wellFormed_first : (postWith firstFields).WellFormed :=
  ⟨by decide, by decide, by decide, by decide⟩

theorem wellFormed_second : (postWith secondFields).WellFormed :=
  ⟨by decide, by decide, by decide, by decide⟩

theorem fieldNames_first :
    (postWith firstFields).fieldNames = ["authors", "comments", "title", "id"] :=
  congrArg (List.map Field.name) (List.mergeSort_of_pairwise (by decide))

theorem fieldNames_second :
    (postWith secondFields).fieldNames = ["comments", "authors", "text", "id"] :=
  congrArg (List.map Field.name) (List.mergeSort_of_pairwise (by decide))

theorem between_first_second :
    between (postWith firstFields) (postWith secondFields) =
      ⟨["text"], ["title"], ["comments", "authors"], true, false⟩ := by
  unfold between
  rw [fieldNames_first, fieldNames_second]
  decide

theorem patches_and_reverses_post :
    (postWith firstFields).WellFormed ∧ (postWith secondFields).WellFormed ∧
      Patches ⟨["text"], ["title"], ["comments", "authors"], true, false⟩
        (postWith firstFields) (postWith secondFields) ∧
      (between (postWith secondFields) (postWith firstFields)).Reverses
        ⟨["text"], ["title"], ["comments", "authors"], true, false⟩ := by
  have h := patches_and_reverses wellFormed_first wellFormed_second
  rw [between_first_second] at h
  exact ⟨wellFormed_first, wellFormed_second, h⟩

end Difference

end CanonicalSchema
