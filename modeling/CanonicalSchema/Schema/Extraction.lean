import CanonicalSchema.Schema.Construction

/-!
The values that an instance of a model has for the fields of its schema, under the names that the
fields have in the target.
-/

namespace CanonicalSchema

inductive LookupKind where
  | key
  | index
  | lookup
  | attribute
  | other (label : String)
deriving DecidableEq

structure LookupFault where
  kind : LookupKind
  message : String
deriving DecidableEq

def LookupFault.isAbsence (f : LookupFault) : Bool :=
  match f.kind with
  | .other _ => false
  | _ => true

structure Instance (α : Type) where
  modelName : Json
  value : String → Except LookupFault α

def Instance.ofTable {α : Type} (modelName : Json) (values : Entries Key α) : Instance α where
  modelName
  value name :=
    match values.get? (.str name) with
    | some a => .ok a
    | none => .error ⟨.key, Quoted.text name⟩

inductive Mismatch where
  | otherModel (schema : String) (modelName : Json)
  | absentField (schema field : String) (modelName : Json) (cause : LookupFault)

namespace Mismatch

def schema : Mismatch → String
  | otherModel schema _ => schema
  | absentField schema _ _ _ => schema

def detail : Mismatch → Text
  | otherModel schema modelName =>
    "the object provided is an instance of '" ++ modelName.text
      ++ "'; provide an instance of '" ++ schema ++ "' which this is a schema for"
  | absentField _ field modelName _ =>
    "field '" ++ field ++ "' is not present in the provided '" ++ modelName.text ++ "' instance"

def cause? : Mismatch → Option LookupFault
  | otherModel _ _ => none
  | absentField _ _ _ cause => some cause

def message (m : Mismatch) : Text := failureMessage m.schema m.detail

end Mismatch

inductive ExtractionFailure where
  | mismatch (m : Mismatch)
  | lookup (fault : LookupFault)

namespace Schema

variable {α : Type}

def isInstance (s : Schema) (i : Instance α) : Bool :=
  match i.modelName with
  | .str name => name == (s.name : Text)
  | _ => false

def fieldValue (s : Schema) (i : Instance α) (f : Field) :
    Except ExtractionFailure (Text × α) :=
  match i.value f.name with
  | .ok a => .ok (f.targetName, a)
  | .error fault =>
    if fault.isAbsence then .error (.mismatch (.absentField s.name f.name i.modelName fault))
    else .error (.lookup fault)

/-- The first field in canonical order whose look-up fails decides. -/
def extract (s : Schema) (i : Instance α) : Except ExtractionFailure (Entries Text α) :=
  if s.isInstance i then (s.sortedFields.mapM (s.fieldValue i)).map Entries.ofList
  else .error (.mismatch (.otherModel s.name i.modelName))

end Schema

/-- An extraction, asked of the instance. -/
def Instance.valuesFor {α : Type} (i : Instance α) (s : Schema) :
    Except ExtractionFailure (Entries Text α) := s.extract i

end CanonicalSchema
