import CanonicalSchema.Entries
import CanonicalSchema.Field.Order
import CanonicalSchema.Index.Basic

/-!
The schema of a model: its fields by name, in the order in which they were given, and a view of
them in the canonical order.
-/

namespace CanonicalSchema

structure Schema where
  name : String
  targetName : Text
  fields : Entries Text Field
  index : Index
deriving DecidableEq

namespace Schema

def sortedFields (s : Schema) : List Field := Field.sort s.fields.values

def field? (s : Schema) (name : Text) : Option Field := s.fields.get? name

def fieldNames (s : Schema) : List String := s.sortedFields.map Field.name

def targetNames (s : Schema) : List Text := s.sortedFields.map Field.targetName

def primaryKey? (s : Schema) : Option Field := s.sortedFields.find? Field.isPrimaryKey

def foreignKeys (s : Schema) : List Field := s.sortedFields.filter Field.isForeignKey

def connections (s : Schema) : List (Field × Connection) :=
  s.sortedFields.filterMap fun f => f.connection.map (f, ·)

/-- Equality of schemas, whatever the order in which their fields were given. -/
def same (s t : Schema) : Bool :=
  s.name == t.name && s.targetName == t.targetName && s.fields.sameEntries t.fields
    && s.index == t.index

/-- The fields agree with their keys and with one another. -/
structure WellFormed (s : Schema) : Prop where
  keys_eq_names : s.fields.keys = s.fields.values.map fun f => .ofString f.name
  keys_nodup : s.fields.keys.Nodup
  targets_nodup : (s.fields.values.map Field.targetName).Nodup
  primaryKeys_le_one : (s.fields.values.filter Field.isPrimaryKey).length ≤ 1

def toJson (s : Schema) : Json := .obj [
  ("name", .str s.name),
  ("target_model_name", .str s.targetName),
  ("fields", .obj (s.fields.map fun e => (e.1, e.2.toJson))),
  ("model_index", s.index.toJson)]

end Schema

end CanonicalSchema
