import CanonicalSchema.Proofs.FieldMap
import CanonicalSchema.Proofs.Reordering

/-!
What the canonical order of a schema shows. The fields stand in a strict order, in which the primary
key comes last and connected fields come first; what is taken out of it, such as the foreign keys
and the connections, is exactly what it should be, in the same order.
-/

namespace CanonicalSchema

/-! The order, by code points -/

theorem Text.lePoints_eq_false_iff {ps qs : List CodePoint} :
    lePoints qs ps = false ↔
      List.Lex (· < ·) (ps.map CodePoint.toNat) (qs.map CodePoint.toNat) := by
  induction ps generalizing qs with
  | nil =>
    cases qs with
    | nil => simp [lePoints]
    | cons q qs => simp [lePoints]
  | cons p ps ih =>
    cases qs with
    | nil => simp [lePoints]
    | cons q qs =>
      rw [← Bool.not_eq_true, lePoints_cons_iff, not_or, not_and, Bool.not_eq_true, ih,
        List.map_cons, List.map_cons, List.cons_lex_cons_iff]
      constructor
      · rintro ⟨hlt, hrest⟩
        rcases Nat.lt_trichotomy p.toNat q.toNat with h | h | h
        · exact Or.inl h
        · exact Or.inr ⟨h, hrest (toNat_inj h.symm)⟩
        · exact absurd h hlt
      · rintro (h | ⟨h, hrest⟩)
        · refine ⟨Nat.lt_asymm h, ?_⟩
          rintro rfl
          exact absurd h (Nat.lt_irrefl _)
        · exact ⟨h ▸ Nat.lt_irrefl _, fun _ => hrest⟩

namespace Field

def codePoints (s : String) : List Nat := s.toList.map Char.toNat

/-- One field comes before another: what is no primary key before what is one, then what is
connected before what is not, then the smaller name, compared code point by code point. -/
inductive Precedes (f g : Field) : Prop
  | primaryKey (hf : f.isPrimaryKey = false) (hg : g.isPrimaryKey = true)
  | connected (hk : f.isPrimaryKey = g.isPrimaryKey) (hf : f.isConnected = true)
      (hg : g.isConnected = false)
  | name (hk : f.isPrimaryKey = g.isPrimaryKey) (hc : f.isConnected = g.isConnected)
      (hn : List.Lex (· < ·) (codePoints f.name) (codePoints g.name))

theorem precedes_iff {f g : Field} : f.Precedes g ↔ f.sortKey.before g.sortKey = true := by
  have hname : Text.le g.name f.name = false ↔
      List.Lex (· < ·) (codePoints f.name) (codePoints g.name) := by
    unfold Text.le
    rw [Text.lePoints_eq_false_iff]
    simp only [Text.ofString, Text.ofChars, codePoints, List.map_map]
    rfl
  have hplain : (!f.isConnected) = !g.isConnected ↔ f.isConnected = g.isConnected :=
    Bool.not_inj_iff
  rw [SortKey.before_iff]
  simp only [sortKey, hplain, Bool.not_eq_eq_eq_not, Bool.not_true, Bool.not_false, hname]
  constructor
  · rintro (⟨hf, hg⟩ | ⟨hk, hf, hg⟩ | ⟨hk, hc, hn⟩)
    · exact Or.inl ⟨hf, hg⟩
    · exact Or.inr (Or.inl ⟨hk, hf, hg⟩)
    · exact Or.inr (Or.inr ⟨hk, hc, hn⟩)
  · rintro (⟨hf, hg⟩ | ⟨hk, hf, hg⟩ | ⟨hk, hc, hn⟩)
    · exact .primaryKey hf hg
    · exact .connected hk hf hg
    · exact .name hk hc hn

theorem Precedes.irrefl (f : Field) : ¬ f.Precedes f := by
  rw [precedes_iff, SortKey.before_irrefl]
  exact Bool.noConfusion

theorem sort_precedes {fs : List Field} (hn : (fs.map name).Nodup) :
    (sort fs).Pairwise Precedes := by
  have hnames : (sort fs).Pairwise fun f g => f.name ≠ g.name :=
    List.pairwise_map.1 (((sort_perm fs).map name).nodup_iff.2 hn)
  refine ((sort_pairwise fs).and hnames).imp ?_
  rintro f g ⟨hb, hne⟩
  have hkey : f.sortKey ≠ g.sortKey := fun h => hne (congrArg SortKey.name h)
  rw [precedes_iff]
  exact (SortKey.before_or_before hkey).resolve_right (by simp [hb])

theorem isForeignKey_iff {f : Field} :
    f.isForeignKey = true ↔ ∃ r, f.reference = some r ∧ r.kind = .belongsTo := by
  unfold isForeignKey
  cases f.reference <;> simp

theorem Normal.isConnected_of_isForeignKey {f : Field} (h : f.Normal)
    (hf : f.isForeignKey = true) : f.isConnected = false := by
  obtain ⟨r, hr, hk⟩ := isForeignKey_iff.1 hf
  have hrule := h.unbroken
  unfold brokenRule? at hrule
  unfold isConnected
  cases hc : f.connection with
  | none => rfl
  | some c =>
    rw [hr, hc] at hrule
    simp [hk] at hrule

end Field

/-! What follows from a strict order -/

theorem filter_prefix_of_pairwise {α : Type} {p : α → Bool} {l : List α}
    (h : l.Pairwise fun a b => p b = true → p a = true) : l.filter p <+: l := by
  induction l with
  | nil => exact List.nil_prefix
  | cons a l ih =>
    rw [List.pairwise_cons] at h
    by_cases ha : p a = true
    · rw [List.filter_cons_of_pos ha]
      exact List.prefix_cons_inj a |>.2 (ih h.2)
    · have hnil : l.filter p = [] := by
        rw [List.filter_eq_nil_iff]
        exact fun b hb hpb => ha (h.1 b hb hpb)
      rw [List.filter_cons_of_neg ha, hnil]
      exact List.nil_prefix

theorem getLast?_of_pairwise {α : Type} {r : α → α → Prop} {l : List α} {a : α}
    (h : l.Pairwise r) (ha : a ∈ l) (hlast : ∀ b ∈ l, ¬ r a b) : l.getLast? = some a := by
  obtain ⟨before, after, rfl⟩ := List.append_of_mem ha
  cases after with
  | nil => exact List.getLast?_concat
  | cons b after =>
    have hr : r a b := (List.pairwise_cons.1 (List.pairwise_append.1 h).2.1).1 b List.mem_cons_self
    exact absurd hr (hlast b (by simp))

namespace Schema

variable {s : Schema} {f g k : Field}

/-- What the canonical order and what is taken out of it show of the fields. -/
structure Canonical (s : Schema) : Prop where
  perm : s.sortedFields.Perm s.fields.values
  strict : s.sortedFields.Pairwise Field.Precedes
  primaryKey_eq_none_iff : s.primaryKey? = none ↔ ∀ f ∈ s.fields.values, f.isPrimaryKey = false
  primaryKey_unique : ∀ k, s.primaryKey? = some k →
    ∀ f ∈ s.fields.values, f.isPrimaryKey = true ↔ f = k
  primaryKey_last : ∀ k, s.primaryKey? = some k → s.sortedFields.getLast? = some k
  connected_first :
    s.sortedFields.filter (fun f => f.isConnected && !f.isPrimaryKey) <+: s.sortedFields
  mem_foreignKeys_iff : ∀ f, f ∈ s.foreignKeys ↔
    f ∈ s.fields.values ∧ ∃ r, f.reference = some r ∧ r.kind = .belongsTo
  mem_connections_iff : ∀ f c, (f, c) ∈ s.connections ↔
    f ∈ s.fields.values ∧ f.connection = some c
  foreignKeys_sublist : s.foreignKeys.Sublist s.sortedFields
  connections_sublist : (Entries.keys s.connections).Sublist s.sortedFields
  disjoint : ∀ f ∈ s.foreignKeys, f ∉ Entries.keys s.connections
  connections_get : ∀ f ∈ s.fields.values, Entries.get? s.connections f = f.connection
  field_isSome_iff : ∀ n, (s.field? n).isSome = true ↔ ∃ m ∈ s.fieldNames, n = .ofString m
  field_eq_some_iff : ∀ n f, s.field? n = some f ↔ f ∈ s.fields.values ∧ n = .ofString f.name

namespace WellFormed

theorem sortedFields_precedes (h : s.WellFormed) : s.sortedFields.Pairwise Field.Precedes :=
  Field.sort_precedes h.names_nodup

theorem values_nodup (h : s.WellFormed) : s.fields.values.Nodup := h.names_nodup.of_map Field.name

theorem eq_of_isPrimaryKey (h : s.WellFormed) (hf : f ∈ s.fields.values)
    (hg : g ∈ s.fields.values) (hpf : f.isPrimaryKey = true) (hpg : g.isPrimaryKey = true) :
    f = g :=
  (length_filter_le_one_iff h.values_nodup).1 h.primaryKeys_le_one f hf g hg hpf hpg

theorem isPrimaryKey_iff (h : s.WellFormed) (hk : s.primaryKey? = some k)
    (hf : f ∈ s.fields.values) : f.isPrimaryKey = true ↔ f = k := by
  have hpk : k.isPrimaryKey = true := List.find?_some hk
  have hmem : k ∈ s.fields.values := mem_sortedFields_iff.1 (List.mem_of_find?_eq_some hk)
  exact ⟨fun hpf => h.eq_of_isPrimaryKey hf hmem hpf hpk, fun he => he ▸ hpk⟩

/-- Only another primary key could come after the primary key. -/
theorem getLast?_sortedFields (h : s.WellFormed) (hk : s.primaryKey? = some k) :
    s.sortedFields.getLast? = some k := by
  have hpk : k.isPrimaryKey = true := List.find?_some hk
  refine getLast?_of_pairwise h.sortedFields_precedes (List.mem_of_find?_eq_some hk) ?_
  intro f hf hkf
  have hpf : f.isPrimaryKey = true := by
    cases hkf with
    | primaryKey hn _ =>
      rw [hpk] at hn
      contradiction
    | connected he _ _ => rw [← he, hpk]
    | name he _ _ => rw [← he, hpk]
  obtain rfl := (h.isPrimaryKey_iff hk (mem_sortedFields_iff.1 hf)).1 hpf
  exact Field.Precedes.irrefl f hkf

theorem connected_prefix (h : s.WellFormed) :
    s.sortedFields.filter (fun f => f.isConnected && !f.isPrimaryKey) <+: s.sortedFields := by
  refine filter_prefix_of_pairwise (h.sortedFields_precedes.imp ?_)
  intro f g hfg hg
  simp only [Bool.and_eq_true, Bool.not_eq_true'] at hg ⊢
  cases hfg with
  | primaryKey _ hpg => simp [hg.2] at hpg
  | connected hk hf _ => exact ⟨hf, hk.trans hg.2⟩
  | name hk hc _ => exact ⟨hc.trans hg.1, hk.trans hg.2⟩

theorem field?_eq_some_iff (h : s.WellFormed) {n : Text} :
    s.field? n = some f ↔ f ∈ s.fields.values ∧ n = .ofString f.name := by
  unfold field?
  rw [Entries.get?_eq_some_iff h.keys_nodup, h.mem_values_iff]
  constructor
  · intro hf
    have hn := h.key_eq_name hf
    exact ⟨hn ▸ hf, hn⟩
  · rintro ⟨hf, rfl⟩
    exact hf

theorem field?_isSome_iff (h : s.WellFormed) {n : Text} :
    (s.field? n).isSome = true ↔ ∃ m ∈ s.fieldNames, n = .ofString m := by
  rw [Option.isSome_iff_exists]
  simp only [h.field?_eq_some_iff, fieldNames, List.mem_map, mem_sortedFields_iff]
  constructor
  · rintro ⟨f, hf, hn⟩
    exact ⟨f.name, ⟨f, hf, rfl⟩, hn⟩
  · rintro ⟨_, ⟨f, hf, rfl⟩, hn⟩
    exact ⟨f, hf, hn⟩

end WellFormed

/-! Foreign keys and connections -/

theorem mem_foreignKeys_iff : f ∈ s.foreignKeys ↔
    f ∈ s.fields.values ∧ ∃ r, f.reference = some r ∧ r.kind = .belongsTo := by
  unfold foreignKeys
  rw [List.mem_filter, mem_sortedFields_iff, Field.isForeignKey_iff]

theorem mem_connections_iff {c : Connection} :
    (f, c) ∈ s.connections ↔ f ∈ s.fields.values ∧ f.connection = some c := by
  unfold connections
  rw [List.mem_filterMap, ← mem_sortedFields_iff]
  constructor
  · rintro ⟨g, hg, hc⟩
    obtain ⟨c', hc', he⟩ := Option.map_eq_some_iff.1 hc
    cases he
    exact ⟨hg, hc'⟩
  · rintro ⟨hf, hc⟩
    exact ⟨f, hf, by rw [hc]; rfl⟩

theorem keys_connections (s : Schema) :
    Entries.keys s.connections = s.sortedFields.filter Field.isConnected := by
  unfold connections Entries.keys
  induction s.sortedFields with
  | nil => rfl
  | cons f fs ih =>
    cases hc : f.connection with
    | none =>
      rw [List.filterMap_cons_none (by rw [hc]; rfl), ih,
        List.filter_cons_of_neg (by simp [Field.isConnected, hc])]
    | some c =>
      rw [List.filterMap_cons_some (by rw [hc]; rfl), List.map_cons, ih,
        List.filter_cons_of_pos (by simp [Field.isConnected, hc])]

theorem nodup_keys_connections (h : s.WellFormed) : (Entries.keys s.connections).Nodup := by
  rw [keys_connections]
  exact ((Field.sort_perm _).nodup_iff.2 h.values_nodup).filter _

theorem get?_connections (h : s.WellFormed) (hf : f ∈ s.fields.values) :
    Entries.get? s.connections f = f.connection := by
  apply Option.ext
  intro c
  rw [Entries.get?_eq_some_iff (nodup_keys_connections h), mem_connections_iff, and_iff_right hf]

theorem Normal.canonical (h : s.Normal) : s.Canonical where
  perm := Field.sort_perm s.fields.values
  strict := h.wellFormed.sortedFields_precedes
  primaryKey_eq_none_iff := by
    unfold primaryKey?
    rw [List.find?_eq_none]
    simp only [mem_sortedFields_iff, Bool.not_eq_true]
  primaryKey_unique := fun _ hk _ hf => h.wellFormed.isPrimaryKey_iff hk hf
  primaryKey_last := fun _ hk => h.wellFormed.getLast?_sortedFields hk
  connected_first := h.wellFormed.connected_prefix
  mem_foreignKeys_iff := fun _ => mem_foreignKeys_iff
  mem_connections_iff := fun _ _ => mem_connections_iff
  foreignKeys_sublist := List.filter_sublist
  connections_sublist := by
    rw [keys_connections]
    exact List.filter_sublist
  disjoint := by
    intro f hf hc
    rw [keys_connections, List.mem_filter] at hc
    unfold foreignKeys at hf
    rw [List.mem_filter, mem_sortedFields_iff] at hf
    obtain ⟨e, he, rfl⟩ := List.mem_map.1 hf.1
    have hn := (h.fields e he).isConnected_of_isForeignKey hf.2
    rw [hn] at hc
    exact Bool.noConfusion hc.2
  connections_get := fun _ hf => get?_connections h.wellFormed hf
  field_isSome_iff := fun _ => h.wellFormed.field?_isSome_iff
  field_eq_some_iff := fun _ _ => h.wellFormed.field?_eq_some_iff

end Schema

end CanonicalSchema
