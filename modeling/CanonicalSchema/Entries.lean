/-!
Entries in the order in which their keys were first written. Writing a key again replaces its
value and moves nothing.
-/

namespace CanonicalSchema

abbrev Entries (κ ν : Type) := List (κ × ν)

namespace Entries

variable {κ ν : Type}

def keys (es : Entries κ ν) : List κ := es.map Prod.fst

def values (es : Entries κ ν) : List ν := es.map Prod.snd

variable [BEq κ]

def get? : Entries κ ν → κ → Option ν
  | [], _ => none
  | (k', v) :: rest, k => if k == k' then some v else get? rest k

def contains (es : Entries κ ν) (k : κ) : Bool := (es.get? k).isSome

/-- The key that was written first stays, also where an equal one is spelt differently. -/
def put : Entries κ ν → κ → ν → Entries κ ν
  | [], k, v => [(k, v)]
  | (k', v') :: rest, k, v => if k == k' then (k', v) :: rest else (k', v') :: put rest k v

def merge (es more : Entries κ ν) : Entries κ ν :=
  more.foldl (fun acc e => acc.put e.1 e.2) es

def ofList (es : List (κ × ν)) : Entries κ ν := merge [] es

/-- Whether two tables without repeated keys hold the same entries, in any order. -/
def sameEntries [BEq ν] (es fs : Entries κ ν) : Bool :=
  es.length == fs.length && es.all fun e => fs.get? e.1 == some e.2

theorem get?_cons (k k' : κ) (v : ν) (es : Entries κ ν) :
    get? ((k', v) :: es) k = if k == k' then some v else get? es k := rfl

@[simp] theorem get?_put_self [LawfulBEq κ] (es : Entries κ ν) (k : κ) (v : ν) :
    (es.put k v).get? k = some v := by
  induction es with
  | nil => simp [put, get?_cons]
  | cons e rest ih =>
    obtain ⟨k', v'⟩ := e
    simp only [put]
    split <;> simp_all [get?_cons]

theorem get?_put_of_ne [LawfulBEq κ] (es : Entries κ ν) {j k : κ} (v : ν) (h : j ≠ k) :
    (es.put k v).get? j = es.get? j := by
  induction es with
  | nil => simp [put, get?, h]
  | cons e rest ih =>
    obtain ⟨k', v'⟩ := e
    simp only [put]
    split
    · have hk : k = k' := by simp_all
      simp [get?_cons, ← hk, h]
    · simp only [get?_cons, ih]

theorem keys_put [LawfulBEq κ] (es : Entries κ ν) (k : κ) (v : ν) :
    (es.put k v).keys = if k ∈ es.keys then es.keys else es.keys ++ [k] := by
  induction es with
  | nil => simp [put, keys]
  | cons e rest ih =>
    obtain ⟨k', v'⟩ := e
    simp only [put]
    split
    · have hk : k = k' := by simp_all
      simp [keys, hk]
    · have hk : k ≠ k' := by simp_all
      simp only [keys, List.map_cons, List.mem_cons, hk, false_or] at ih ⊢
      rw [ih]
      by_cases hm : k ∈ List.map Prod.fst rest <;> simp [hm]

end Entries

end CanonicalSchema
