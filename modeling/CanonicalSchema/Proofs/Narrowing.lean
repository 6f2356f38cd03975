import CanonicalSchema.Proofs.Freezing

/-!
Numbers in frozen values. Narrowing turns every number that is an integer into exactly this integer,
leaves all other leaves as they are, and never fails.
-/

namespace CanonicalSchema.Value

variable {narrow : Bool} {v w : Value}

/-- The way from a value to one right inside it. -/
inductive Step where
  | label (l : Text)
  | position (i : Nat)

/-- The value right inside another; of the entries whose keys have one text, the last one counts. -/
def part? (v : Value) : Step → Option Value
  | .label l => v.entries?.bind fun es => (writes es).lastWritten l
  | .position i => v.elements?.bind fun items => items[i]?

def at? (v : Value) : List Step → Option Value
  | [] => some v
  | s :: path => (v.part? s).bind fun u => u.at? path

/-- What narrowing does at one place: a number whose exact value is an integer becomes it, every
other leaf is kept, and what holds other values becomes read-only. -/
inductive Narrowed (narrow : Bool) : Value → Value → Prop
  | null : Narrowed narrow null null
  | bool (b : Bool) : Narrowed narrow (bool b) (bool b)
  | int (n : Int) : Narrowed narrow (int n) (int n)
  | str (s : Text) : Narrowed narrow (str s) (str s)
  | integral (x : Binary64) (n : Int) (hn : narrow = true) (hx : x.value? = some (n : ℚ)) :
      Narrowed narrow (float x) (int n)
  | float (x : Binary64) (hx : narrow = true → ∀ n : Int, x.value? ≠ some (n : ℚ)) :
      Narrowed narrow (float x) (float x)
  | sequence (v : Value) (items ws : List Value) (hv : v.elements? = some items)
      (hl : items.length = ws.length) : Narrowed narrow v (tuple ws)
  | mapping (v : Value) (es fs : List (Value × Value)) (hv : v.entries? = some es) :
      Narrowed narrow v (map fs)

/-! One place -/

theorem narrowed_float_iff {x : Binary64} :
    Narrowed narrow (float x) w ↔ w = narrowed narrow x := by
  unfold narrowed
  constructor
  · intro h
    cases h with
    | integral _ n hn hx =>
      rw [if_pos hn, Binary64.integer?_eq_some_iff.2 hx]
      rfl
    | float _ hx =>
      cases narrow with
      | false => rfl
      | true =>
        have hnone : x.integer? = none := by
          rw [Option.eq_none_iff_forall_ne_some]
          exact fun n hn => hx rfl n (Binary64.integer?_eq_some_iff.1 hn)
        rw [if_pos rfl, hnone]
        rfl
    | sequence _ _ _ hv => contradiction
    | mapping _ _ _ hv => contradiction
  · rintro rfl
    cases narrow with
    | false => exact .float x nofun
    | true =>
      cases hx : x.integer? with
      | none =>
        exact .float x fun _ n hn => nomatch hx.symm.trans (Binary64.integer?_eq_some_iff.2 hn)
      | some n => exact .integral x n rfl (Binary64.integer?_eq_some_iff.1 hx)

theorem narrowed_of_frozenTo (h : FrozenTo narrow v w) : Narrowed narrow v w := by
  induction v using induction with
  | foreign v hv => exact nomatch (freeze_of_foreign narrow hv).symm.trans h
  | fixed v hv =>
    cases (freeze_of_fixed narrow hv).symm.trans h
    cases w <;> first | contradiction | constructor
  | float x =>
    cases (freeze_float narrow x).symm.trans h
    exact narrowed_float_iff.2 rfl
  | sequence v items hv _ =>
    obtain ⟨ws, hws, rfl⟩ := (frozenTo_of_elements hv).1 h
    exact .sequence v items ws hv hws.length_eq
  | mapping v es hv _ =>
    obtain ⟨fs, hfs, rfl⟩ := (frozenTo_of_entries hv).1 h
    exact .mapping v es _ hv

/-! All places -/

theorem rel_part?_of_frozenTo (h : FrozenTo narrow v w) (s : Step) :
    Option.Rel (FrozenTo narrow) (v.part? s) (w.part? s) := by
  have hleaf {u : Value} (he : u.entries? = none) (hi : u.elements? = none) : u.part? s = none := by
    cases s <;> simp [part?, he, hi]
  induction v using induction with
  | foreign v hv => exact nomatch (freeze_of_foreign narrow hv).symm.trans h
  | fixed v hv =>
    cases (freeze_of_fixed narrow hv).symm.trans h
    rw [hleaf (by cases w <;> first | rfl | contradiction)
      (by cases w <;> first | rfl | contradiction)]
    exact .none
  | float x =>
    cases (freeze_float narrow x).symm.trans h
    have hnone : (narrowed narrow x).part? s = none := by
      unfold narrowed
      cases narrow with
      | false => exact hleaf rfl rfl
      | true => cases x.integer? <;> exact hleaf rfl rfl
    rw [hnone, hleaf rfl rfl]
    exact .none
  | sequence v items hv _ =>
    obtain ⟨ws, hws, rfl⟩ := (frozenTo_of_elements hv).1 h
    cases s with
    | label l =>
      have he : v.entries? = none := by cases v <;> cases hv <;> rfl
      simp only [part?, he]
      exact .none
    | position i =>
      simp only [part?, hv]
      exact List.rel_getElem?_of_forall₂ hws i
  | mapping v es hv _ =>
    obtain ⟨fs, hfs, rfl⟩ := (frozenTo_of_entries hv).1 h
    cases s with
    | label l =>
      -- Nothing is written over in a read-only mapping, so its last entry is its only one.
      have hlast : (Entries.ofList fs).lastWritten l = fs.lastWritten l := by
        rw [← Entries.get?_ofList, Entries.ofList_of_apart (Entries.apart_ofList fs),
          Entries.get?_ofList]
      simp only [part?, hv, entries?_frozenMap, Option.bind_some, writes_text, hlast]
      exact hfs.lastWritten l
    | position i =>
      have hi : v.elements? = none := by cases v <;> cases hv <;> rfl
      simp only [part?, hi]
      exact .none

theorem rel_at?_of_frozenTo (h : FrozenTo narrow v w) (path : List Step) :
    Option.Rel (FrozenTo narrow) (v.at? path) (w.at? path) := by
  induction path generalizing v w with
  | nil => exact .some h
  | cons s path ih =>
    have hs := rel_part?_of_frozenTo h s
    rw [at?, at?]
    generalize v.part? s = x, w.part? s = y at hs
    cases hs with
    | none => exact .none
    | some hs => exact ih hs

/-! All numbers -/

/-- Freezing fails over foreign values only, and otherwise every number that is an integer has
become it, at every place, if numbers are narrowed, and every other leaf is as it was. -/
theorem narrow_exact (narrow : Bool) (v : Value) :
    (∀ fault, v.freeze narrow = .error fault →
      ∃ u ∈ v.reached, u.isForeign = true ∧ fault = .unsupported u) ∧
    ∀ w, v.freeze narrow = .ok w →
      (∀ path, Option.Rel (Narrowed narrow) (v.at? path) (w.at? path)) ∧
      (narrow = true → ∀ x, float x ∈ w.reached → ∀ n : Int, x.value? ≠ some (n : ℚ)) := by
  constructor
  · intro fault h
    obtain ⟨u, hu, rfl⟩ := Option.map_eq_some_iff.1 (freeze_eq_error_iff.1 h)
    exact ⟨u, List.mem_of_find?_eq_some hu, List.find?_some hu, rfl⟩
  · intro w h
    refine ⟨fun path => ?_, fun hn x hx n => ?_⟩
    · have hrel := rel_at?_of_frozenTo h path
      generalize v.at? path = y, w.at? path = z at hrel
      cases hrel with
      | none => exact .none
      | some hyz => exact .some (narrowed_of_frozenTo hyz)
    · have hall : ∀ u ∈ w.reached, ∀ y, u = float y → ∀ n : Int, y.value? ≠ some (n : ℚ) := by
        refine forall_reached_of_frozenTo (fun u hu y huy => ?_) (fun y z hz n => ?_)
          (fun _ => nofun)
          (fun _ => nofun) h
        · rw [huy] at hu
          contradiction
        · have hrel := narrowed_float_iff.2 hz.symm
          cases hrel with
          | float _ hy => exact hy hn n
      exact hall _ hx x rfl n

/-- Negative zero, a power of two far beyond all significands, a fraction, an infinity and no number
at all, beside a truth value, an integer and a key that is written twice. -/
def numbers : Value := mutableMap [
  (str "a", list [float ⟨0x8000000000000000⟩, float ⟨0x7fe0000000000000⟩]),
  (str "b", tuple [float ⟨0x4004000000000000⟩, float ⟨0x7ff0000000000000⟩,
    float ⟨0x7ff8000000000000⟩]),
  (str "c", float ⟨0x4000000000000000⟩),
  (str "c", list [bool true, int 3])]

theorem reached_numbers : ∀ u ∈ numbers.reached, u.isForeign = false := by
  simp [numbers, reached, reachedFromItems, reachedFromEntries, isForeign]

theorem narrow_exact_numbers :
    ∃ w, numbers.freeze true = .ok w ∧
      w.at? [.label "a", .position 0] = some (int 0) ∧
      w.at? [.label "a", .position 1] = some (int (2 ^ 1023)) ∧
      w.at? [.label "b", .position 2] = some (float ⟨0x7ff8000000000000⟩) ∧
      ∀ x, float x ∈ w.reached → ∀ n : Int, x.value? ≠ some (n : ℚ) := by
  obtain ⟨hfault, hfrozen⟩ := narrow_exact true numbers
  cases h : numbers.freeze true with
  | error fault =>
    obtain ⟨u, hu, hforeign, -⟩ := hfault fault h
    exact nomatch hforeign.symm.trans (reached_numbers u hu)
  | ok w =>
    obtain ⟨hplaces, hnone⟩ := hfrozen w h
    have hzero : Binary64.integer? ⟨0x8000000000000000⟩ = some 0 := by decide +kernel
    have hpower : Binary64.integer? ⟨0x7fe0000000000000⟩ = some (2 ^ 1023) := by decide +kernel
    have hnan : Binary64.integer? ⟨0x7ff8000000000000⟩ = none := by decide +kernel
    have hplace {path : List Step} {x : Binary64} (hx : numbers.at? path = some (float x)) :
        w.at? path = some (narrowed true x) := by
      have hrel := hplaces path
      rw [hx] at hrel
      generalize w.at? path = y at hrel
      cases hrel with
      | some hxy => rw [narrowed_float_iff.1 hxy]
    refine ⟨w, rfl, ?_, ?_, ?_, hnone rfl⟩
    · rw [hplace rfl, narrowed, if_pos rfl, hzero]
      rfl
    · rw [hplace rfl, narrowed, if_pos rfl, hpower]
      rfl
    · rw [hplace rfl, narrowed, if_pos rfl, hnan]
      rfl

end CanonicalSchema.Value
