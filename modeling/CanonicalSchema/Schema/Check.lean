import CanonicalSchema.Field.Check
import CanonicalSchema.Index.Declaration
import CanonicalSchema.Schema.Basic
import CanonicalSchema.Text.Surrogate

/-!
Schemas from drafts. A draft is what was said about a schema, with nothing checked yet, wherever
it comes from; a field in it is a description or a ready field.
-/

namespace CanonicalSchema

open Checked

inductive FieldSource where
  | described (j : Json)
  | ready (field : Field)

def FieldSource.check : FieldSource → Checked Field
  | described j => Field.check j
  | ready field => accepted field

inductive IndexSource where
  | described (j : Json)
  | ready (index : Index)

def IndexSource.check : IndexSource → Checked Index
  | described j => Index.check j
  | ready index => accepted index

inductive FieldTable where
  | absent
  | entries (es : Entries Key FieldSource)
  | notTable

/-- What was said about a schema; `tableLabel` is the label under which the fields were given. -/
structure Draft where
  name : Option Json
  targetName : Option Json
  tableLabel : String
  table : FieldTable
  index : Option IndexSource
  others : List Text

namespace Schema

def title : String := "ModelSchema"

/-- A key by which a path goes on: an integer of 64 bits stands for itself, as truth values do, and
any other key for its text. -/
def keyStep : Key → Issue.Step
  | .str s => .label s.shown
  | .bool b => .position (if b then 1 else 0)
  | .int n => if isShort n then .position n else .label (Value.int n).literal
  | k => .label k.toValue.literal

def checkKey : Key → Checked Text
  | .str s => accepted s
  | _ => (fail .notText).under (.label "[key]")

def checkEntry (key : Key) (source : FieldSource) : Checked (Text × Field) :=
  ((·, ·) <$> checkKey key <*> source.check).under (keyStep key)

def checkTable : FieldTable → Checked (Entries Text Field)
  | .absent => accepted []
  | .entries es => all (es.map fun e => checkEntry e.1 e.2)
  | .notTable => fail .notTable

/-- The first field, in the order given, that is not under its name or that shares its target name
with one before it. `seen` holds the target names so far with the names of their fields. -/
def misplaced? (model : String) (seen : Entries Text String) :
    Entries Text Field → Option Rule
  | [] => none
  | (key, f) :: rest =>
    if key ≠ f.name then some (.keyMismatch model key f.name)
    else
      match seen.get? f.targetName with
      | some first => some (.sharedTarget model first f.name f.targetName)
      | none => misplaced? model (seen.put f.targetName f.name) rest

def primaryKeyNames (fields : Entries Text Field) : List String :=
  ((fields.values.filter Field.isPrimaryKey).map Field.name).mergeSort fun a b => Text.le a b

def brokenRule? (s : Schema) : Option Rule :=
  match misplaced? s.name [] s.fields with
  | some rule => some rule
  | none =>
    let names := primaryKeyNames s.fields
    if 1 < names.length then some (.severalPrimaryKeys s.name names) else none

end Schema

/-- A rule that is broken is an issue of the whole schema, unless it cannot be put into words that
have an encoding. -/
inductive SchemaFault where
  | rejected (rejection : Rejection)
  | unencodable (message : Unencodable)
deriving DecidableEq

def SchemaFault.faultClass : SchemaFault → FaultClass
  | rejected _ => .validation
  | unencodable _ => .encoding

def SchemaFault.ofRule (rule : Rule) : SchemaFault :=
  match rule.message.encodable with
  | .ok _ => rejected ⟨Schema.title, [⟨[], .broken rule⟩]⟩
  | .error message => unencodable message

namespace Draft

def isGiven : Option Json → Bool
  | some j => !j.isBlank
  | none => false

/-- A target name that is blank becomes the name. -/
def normalize (d : Draft) : Draft :=
  if !isGiven d.targetName && isGiven d.name then { d with targetName := d.name } else d

def checkAttributes (d : Draft) : Checked Schema :=
  Schema.mk <$>
    (match d.name with
      | some j => nonEmptyText j
      | none => fail .missing).under (.label "name")
    <*> (match d.targetName with
      | some j => text j
      | none => accepted ("" : String)).under (.label "target_model_name")
    <*> (Schema.checkTable d.table).under (.label d.tableLabel)
    <*> (match d.index with
      | some source => source.check
      | none => accepted Index.empty).under (.label "model_index")
    <* noOthers d.others

/-- The rules are looked at only where all attributes were accepted. -/
def check (d : Draft) : Except SchemaFault Schema :=
  match d.normalize.checkAttributes with
  | .rejected issues => .error (.rejected ⟨Schema.title, issues⟩)
  | .accepted s =>
    match Schema.brokenRule? s with
    | some rule => .error (.ofRule rule)
    | none => .ok s

def tableOf : Json → FieldTable
  | .obj members => .entries (members.map fun m => (.str m.1, .described m.2))
  | _ => .notTable

/-- The fields may be labelled `field_map` as well, unless both labels are there. -/
def ofMembers (ms : Entries Text Json) : Draft :=
  let tableLabel : String :=
    if !ms.contains "fields" && ms.contains "field_map" then "field_map" else "fields"
  let known : List Text := ["name", "target_model_name", tableLabel, "model_index"]
  { name := ms.get? "name"
    targetName := ms.get? "target_model_name"
    tableLabel
    table := ((ms.get? tableLabel).map tableOf).getD .absent
    index := (ms.get? "model_index").map .described
    others := ms.keys.filter fun l => !known.contains l }

end Draft

namespace Schema

def ofJson (j : Json) : Except SchemaFault Schema :=
  match record title (fun ms => accepted (Draft.ofMembers ms)) j with
  | .rejected issues => .error (.rejected ⟨title, issues⟩)
  | .accepted draft => draft.check

end Schema

end CanonicalSchema
