import CanonicalSchema.Json.Reader

/-!
Runs of the reader, one step at a time. White space between tokens changes nothing.
-/

namespace CanonicalSchema.Json

variable {depth : Depth} {expecting next : Expecting} {frames frames' : List Frame}
  {text rest : List Char} {v : Json}

def Move.outcome (depth : Depth) : Move → Except Stop Json
  | finished v => .ok v
  | go next frames rest => run depth next frames rest

theorem run_eq : run depth expecting frames text =
    (step depth expecting frames (text.dropWhile isSpace)).bind (Move.outcome depth) := by
  rw [run]
  split
  · next h => rw [h]; rfl
  · next h => rw [h]; rfl
  · next h => rw [h]; rfl

theorem run_of_step (next : Expecting) (frames' : List Frame)
    (h : step depth expecting frames (text.dropWhile isSpace) = .ok (.go next frames' rest)) :
    run depth expecting frames text = run depth next frames' rest := by
  rw [run_eq, h]
  rfl

theorem run_of_finished
    (h : step depth expecting frames (text.dropWhile isSpace) = .ok (.finished v)) :
    run depth expecting frames text = .ok v := by
  rw [run_eq, h]
  rfl

theorem run_congr {expecting' : Expecting} {text' : List Char}
    (h : step depth expecting frames (text.dropWhile isSpace) =
      step depth expecting' frames' (text'.dropWhile isSpace)) :
    run depth expecting frames text = run depth expecting' frames' text' := by
  rw [run_eq, run_eq, h]

theorem run_space {c : Char} (hc : isSpace c = true) :
    run depth expecting frames (c :: text) = run depth expecting frames text :=
  run_congr (by rw [List.dropWhile_cons_of_pos hc])

end CanonicalSchema.Json
