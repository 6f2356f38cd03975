import CanonicalSchema.Options
import CanonicalSchema.Schema.Check

/-!
Schemas from loose material: any name, a table of fields in any readable form, and an index
declaration. What is wrong with the material is handled by one clause and made a failure of one kind
that carries the name, if the name can be put into words.
-/

namespace CanonicalSchema

def Malformed.ofSchemaFault : SchemaFault → Malformed
  | .rejected rejection => rejected rejection
  | .unencodable message => unencodable message

inductive FieldMaterial where
  | loose (j : Json)
  | table (es : Entries Key FieldSource)

namespace FieldMaterial

def described (es : Entries Key Json) : Entries Key FieldSource :=
  es.map fun e => (e.1, .described e.2)

def read : FieldMaterial → Except Malformed (Entries Key FieldSource)
  | loose j => (Table.read j).map described
  | table es => .ok es

/-- The entries that can be read from the front, and what keeps the rest from being read. -/
def readable : FieldMaterial → Entries Key FieldSource × Option Malformed
  | loose j => (described (Table.readable j).1, (Table.readable j).2)
  | table es => (es, none)

end FieldMaterial

structure Description where
  name : Json
  targetName : Json
  fields : FieldMaterial
  index : IndexDeclaration
  options : Options

inductive ConstructionFault where
  | malformed (cause : Malformed)
  | unknownIndexFields (index : Option Text) (names : List Text)

structure ConstructionFailure where
  modelName : Json
  fault : ConstructionFault

namespace ConstructionFault

def detail : ConstructionFault → String
  | malformed _ => "error in constructing a ModelSchema"
  | unknownIndexFields index names =>
    "index " ++ (Json.ofOption Json.str index).literal ++ " references unknown field(s): "
      ++ Json.literalTexts names

def cause? : ConstructionFault → Option Malformed
  | malformed cause => some cause
  | unknownIndexFields _ _ => none

end ConstructionFault

def failureMessage (modelName : Text) (detail : Text) : Text := "[" ++ modelName ++ "] " ++ detail

/-- What a build ends with instead of a schema; what is no failure of the description escapes. -/
inductive BuildFault where
  | failure (f : ConstructionFailure)
  | escaped (cause : Malformed)

namespace ConstructionFailure

/-- The name may be any value, also one that cannot be put into words. -/
def message (f : ConstructionFailure) (depth : Depth) : Except WordingFault Text :=
  (f.modelName.inWords depth).map fun name => failureMessage name f.fault.detail

/-- A failure is made with its message, or what keeps the message from being made escapes. -/
def raised (f : ConstructionFailure) (depth : Depth) : BuildFault :=
  match f.message depth with
  | .ok _ => .failure f
  | .error fault => .escaped (.unwordable fault)

end ConstructionFailure

namespace Description

/-- The index is looked at first, then the table, then all attributes together. -/
def draft (d : Description) (depth : Depth) : Except Malformed Draft := do
  let index ← d.index.resolve depth
  let entries ← d.fields.read
  return {
    name := some d.name
    targetName := some (if d.targetName.isBlank then d.name else d.targetName)
    tableLabel := "fields"
    table := .entries entries
    index := some (.ready index)
    others := [] }

def checked (d : Description) (depth : Depth) : Except Malformed Schema := do
  let draft ← d.draft depth
  draft.check.mapError .ofSchemaFault

def unknownIndexFields (s : Schema) : List Text :=
  s.index.fields.filter fun n => !s.fields.contains n

/-- The classes of what is made a failure of the description. -/
def handled : List FaultClass := [.validation, .value, .type]

/-- What a fault of one of the stages comes to. -/
def failed (d : Description) (depth : Depth) (cause : Malformed) : BuildFault :=
  if cause.faultClass.isHandledBy handled then
    ConstructionFailure.raised ⟨d.name, .malformed cause⟩ depth
  else .escaped cause

def build (d : Description) (depth : Depth) : Except BuildFault Schema :=
  match d.checked depth with
  | .error cause => .error (d.failed depth cause)
  | .ok s =>
    if d.options.strictIndex && !(unknownIndexFields s).isEmpty then
      .error (ConstructionFailure.raised
        ⟨d.name, .unknownIndexFields s.index.name (unknownIndexFields s)⟩ depth)
    else .ok s

end Description

end CanonicalSchema
