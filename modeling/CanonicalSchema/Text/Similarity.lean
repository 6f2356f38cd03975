/-!
How much two texts are alike: the longest run of characters that both have is taken out, then the
longest ones in front of it and behind it, and so on. All characters taken are compared with the
lengths of both texts.
-/

namespace CanonicalSchema.Similarity

def sharedStart : List Char → List Char → Nat
  | c :: cs, d :: ds => if c = d then sharedStart cs ds + 1 else 0
  | _, _ => 0

/-- A run that two texts share, by its place in both. -/
structure Block where
  left : Nat
  right : Nat
  size : Nat

def blocks (as bs : List Char) : List Block :=
  (List.range as.length).flatMap fun i => (List.range bs.length).map fun j =>
    ⟨i, j, sharedStart (as.drop i) (bs.drop j)⟩

def larger (best block : Block) : Block := if best.size < block.size then block else best

/-- Of several longest runs the first one on the left, and of those the first one on the right. -/
def longest (as bs : List Char) : Block := (blocks as bs).foldl larger ⟨0, 0, 0⟩

theorem sharedStart_le (as bs : List Char) : sharedStart as bs ≤ as.length := by
  fun_induction sharedStart as bs <;> grind

theorem left_add_size_le_of_mem {as bs : List Char} {block : Block} (h : block ∈ blocks as bs) :
    block.left + block.size ≤ as.length := by
  simp only [blocks, List.mem_flatMap, List.mem_range, List.mem_map] at h
  obtain ⟨i, hi, j, _, rfl⟩ := h
  have := sharedStart_le (as.drop i) (bs.drop j)
  simp only [List.length_drop] at this
  simp only
  omega

theorem foldl_larger {p : Block → Prop} (xs : List Block) (best : Block) (hb : p best)
    (hx : ∀ x ∈ xs, p x) : p (xs.foldl larger best) := by
  induction xs generalizing best with
  | nil => exact hb
  | cons x xs ih =>
    refine ih _ ?_ fun y hy => hx y (by simp [hy])
    unfold larger
    split
    · exact hx x (by simp)
    · exact hb

theorem longest_left_add_size_le (as bs : List Char) :
    (longest as bs).left + (longest as bs).size ≤ as.length :=
  foldl_larger (p := fun x => x.left + x.size ≤ as.length) _ _ (by simp)
    fun _ => left_add_size_le_of_mem

def shared (as bs : List Char) : Nat :=
  match _h : longest as bs with
  | ⟨left, right, size⟩ =>
    if size = 0 then 0
    else
      shared (as.take left) (bs.take right) + size
        + shared (as.drop (left + size)) (bs.drop (right + size))
termination_by as.length
decreasing_by
  all_goals
    have := longest_left_add_size_le as bs
    simp only [_h] at this
    simp only [List.length_take, List.length_drop]
    omega

/-- Three tenths of both lengths together have to be shared. -/
def isClose (word name : String) : Bool :=
  let total := word.length + name.length
  3 * total ≤ 10 * min word.length name.length
    && 3 * total ≤ 10 * shared name.toList word.toList

/-- Compares shares of the lengths, then names, the greater first. -/
def closer (word a b : String) : Bool :=
  let share (name : String) := shared name.toList word.toList
  let left := share a * (word.length + b.length)
  let right := share b * (word.length + a.length)
  if left = right then b ≤ a else right < left

/-- The three names that are most like a word, if they are close at all. -/
def closest (word : String) (names : List String) : List String :=
  ((names.filter (isClose word)).mergeSort (closer word)).take 3

end CanonicalSchema.Similarity
