import CanonicalSchema.Proofs.ConstructedSchema
import CanonicalSchema.Proofs.KeyEquality
import CanonicalSchema.Proofs.LastWrites
import CanonicalSchema.Proofs.OrderIndependence

/-!
Whole runs of a builder. However long a run is, what is built depends on the last writes only: it is
one build of each key that was written, with the value written to it last, and of the last target
name and the last index.
-/

namespace CanonicalSchema

theorem Description.keys_of_build {d : Description} {depth : Depth} {es : Entries Key FieldSource}
    {s : Schema} (hr : d.fields.read = .ok es) (hb : d.build depth = .ok s) :
    es.keys = s.fields.keys.map .str := by
  obtain ⟨index, es', -, hr', hc⟩ := checked_eq_ok_iff.1 (build_eq_ok_iff.1 hb).1
  cases hr.symm.trans hr'
  obtain ⟨-, -, hfields, -, -⟩ :=
    Draft.checkAttributes_eq_accepted_iff.1 (Draft.check_eq_ok_iff.1 hc).1
  rw [Draft.normalize_table] at hfields
  exact Schema.keys_of_checksTo (Schema.checkTable_entries_iff.1 hfields)

namespace Builder

namespace Step

/-- The fields that a step writes; where it fails, those in front of what cannot be read. -/
def fieldWrites : Step → Entries Key FieldSource
  | addField field => [(.str field.name, .ready field)]
  | addFields material => material.readable.1
  | _ => []

def targetName? : Step → Option Json
  | setTargetName targetName => some targetName
  | _ => none

def index? : Step → Option (Json × List Json)
  | setIndex name fields => fields.items?.map (name, ·)
  | _ => none

end Step

/-! What a sequence of steps comes down to -/

def fieldWrites (steps : List Step) : Entries Key FieldSource := steps.flatMap Step.fieldWrites

def lastTargetName (steps : List Step) : Json :=
  (steps.filterMap Step.targetName?).getLast?.getD .null

def lastIndex? (steps : List Step) : Option (Json × List Json) :=
  (steps.filterMap Step.index?).getLast?

def lastWord (name : Json) (options : Options) (steps : List Step) : Description where
  name := name
  targetName := lastTargetName steps
  fields := .table (Entries.lastWrites (fieldWrites steps))
  options := options
  index :=
    match lastIndex? steps with
    | some (name, items) => .tuple [name, .arr items]
    | none => .absent

variable {name : Json} {options : Options}

theorem afterAll_append (b : Builder) (steps : List Step) (step : Step) :
    b.afterAll (steps ++ [step]) = (b.afterAll steps).after step := by
  unfold afterAll
  rw [List.foldl_append]
  rfl

theorem after_eq (b : Builder) (step : Step) :
    b.after step = {
      name := b.name
      options := b.options
      targetName := step.targetName?.getD b.targetName
      fields := b.fields.merge step.fieldWrites
      index := step.index?.or b.index } := by
  cases step with
  | setTargetName targetName => rfl
  | addField field => rfl
  | addFields material => rfl
  | setIndex indexName fields =>
    simp only [Builder.after, setIndex, Step.index?]
    cases fields.items? <;> rfl

theorem afterAll_start (steps : List Step) :
    (start name options).afterAll steps = {
      name := name
      options := options
      targetName := lastTargetName steps
      fields := Entries.ofList (fieldWrites steps)
      index := lastIndex? steps } := by
  induction steps using List.reverseRecOn with
  | nil => rfl
  | append_singleton steps step ih =>
    have htarget : lastTargetName (steps ++ [step]) =
        step.targetName?.getD (lastTargetName steps) := by
      unfold lastTargetName
      rw [List.filterMap_append]
      cases step <;> simp [Step.targetName?]
    have hindex : lastIndex? (steps ++ [step]) = step.index?.or (lastIndex? steps) := by
      unfold lastIndex?
      rw [List.filterMap_append]
      cases hi : step.index? <;> simp [hi]
    have hfields : Entries.ofList (fieldWrites (steps ++ [step])) =
        (Entries.ofList (fieldWrites steps)).merge step.fieldWrites := by
      unfold fieldWrites Entries.ofList Entries.merge
      rw [List.flatMap_append, List.flatMap_singleton, List.foldl_append]
    rw [afterAll_append, ih, after_eq, htarget, hindex, hfields]

theorem description_afterAll (steps : List Step) :
    ((start name options).afterAll steps).description = lastWord name options steps := by
  rw [afterAll_start, Entries.ofList_eq_lastWrites]
  rfl

/-! Runs -/

/-- What can be called on a builder: a step, or a look at what it builds. -/
inductive Call where
  | step (s : Step)
  | build

def Call.step? : Call → Option Step
  | step s => some s
  | build => none

def stepsOf (calls : List Call) : List Step := calls.filterMap Call.step?

def run (depth : Depth) (b : Builder) : List Call → Builder × List (Except BuildFault Schema)
  | [] => (b, [])
  | .step s :: calls => run depth (b.after s) calls
  | .build :: calls => ((run depth b calls).1, b.build depth :: (run depth b calls).2)

/-- For each look of a run the steps in front of it, behind those that were done before the run. -/
def histories (done : List Step) : List Call → List (List Step)
  | [] => []
  | .step s :: calls => histories (done ++ [s]) calls
  | .build :: calls => done :: histories done calls

theorem run_eq (depth : Depth) (done : List Step) (calls : List Call) :
    run depth ((start name options).afterAll done) calls =
      ((start name options).afterAll (done ++ stepsOf calls),
        (histories done calls).map fun steps => (lastWord name options steps).build depth) := by
  induction calls generalizing done with
  | nil =>
    unfold stepsOf
    rw [List.filterMap_nil, List.append_nil]
    rfl
  | cons call calls ih =>
    cases call with
    | step s =>
      rw [run, ← afterAll_append, ih, List.append_assoc]
      rfl
    | build =>
      rw [run, ih, histories, List.map_cons, Builder.build, description_afterAll]
      rfl

/-! Runs with the same last writes -/

/-- The same was written last, in any order and over whatever else. -/
structure SameLastWrites (steps steps' : List Step) : Prop where
  targetName : lastTargetName steps = lastTargetName steps'
  fields : ∀ k, (fieldWrites steps).lastWritten k = (fieldWrites steps').lastWritten k
  index : lastIndex? steps = lastIndex? steps'

namespace SameLastWrites

variable {depth : Depth} {steps steps' : List Step}

theorem symm (h : SameLastWrites steps steps') : SameLastWrites steps' steps :=
  ⟨h.targetName.symm, fun k => (h.fields k).symm, h.index.symm⟩

/-- What builds has texts for keys, so its entries are the same as those of the other. -/
theorem reordered {s : Schema} (h : SameLastWrites steps steps')
    (hb : (lastWord name options steps).build depth = .ok s) :
    (lastWord name options steps).Reordered (lastWord name options steps') := by
  have hkeys := Description.keys_of_build rfl hb
  constructor
  case name => rfl
  case options => rfl
  case targetName => exact h.targetName
  case index =>
    unfold lastWord
    rw [h.index]
  case fields =>
    refine ⟨_, _, rfl, rfl, ?_, ?_⟩
    · rw [← Entries.ofList_eq_lastWrites] at hkeys ⊢
      rw [← Entries.ofList_eq_lastWrites]
      refine Entries.perm_of_get?_eq (Entries.apart_ofList _) (Entries.apart_ofList _) ?_ ?_
      · intro k
        rw [Entries.get?_ofList, Entries.get?_ofList]
        exact h.fields k
      · -- A key that is no text could be spelt in another way, but then nothing is built.
        intro k hk j hj
        rw [hkeys] at hk
        obtain ⟨t, -, rfl⟩ := List.mem_map.1 hk
        exact Key.beq_str_iff.1 hj
    · rw [← Entries.ofList_eq_lastWrites]
      exact Entries.nodup_keys_ofList _

theorem agree (h : SameLastWrites steps steps') :
    Schema.Agree ((lastWord name options steps).build depth)
      ((lastWord name options steps').build depth) := by
  cases hb : (lastWord name options steps).build depth with
  | ok s =>
    rw [← hb]
    exact (h.reordered hb).agree
  | error e =>
    cases hb' : (lastWord name options steps').build depth with
    | ok t =>
      rw [← hb, ← hb']
      exact (h.symm.reordered hb').symm.agree
    | error f => exact .failed e f

end SameLastWrites

def keyFields : FieldMaterial := .loose (.obj [
  ("id", .obj [("name", .str "id"), ("declared_type", .str "id"), ("is_primary_key", .bool true)])])

/-- A ready field under a key that is not its name. -/
def misplacedFields : FieldMaterial :=
  .table [(.str "title", .ready ⟨"heading", "heading", .json, none, false, false, false, false,
    none, none⟩)]

def detour : List Call := [
  .step (.setTargetName (.str "Draft")),
  .step (.addFields misplacedFields),
  .build,
  .step (.addFields keyFields),
  .step (.addField (.plain "title" "title")),
  .step (.setIndex (.str "byTitle") (.arr [.str "title"])),
  .step (.setTargetName (.str "Posts"))]

def straight : List Call := [
  .step (.setIndex (.str "byTitle") (.arr [.str "title"])),
  .step (.setTargetName (.str "Posts")),
  .step (.addFields keyFields),
  .step (.addField (.plain "title" "title"))]

end Builder

end CanonicalSchema
