import CanonicalSchema.Json.Basic

/-!
What is known about one attribute of a model: its name here and in the target, its type, and how
it leads to another model, either by a reference that is stored in it or by a connection that is
resolved through the other model. Texts that must not be empty are made of characters; the others
may hold surrogates as well.
-/

namespace CanonicalSchema

inductive FieldType where
  | id
  | string
  | int
  | float
  | boolean
  | datetime
  | date
  | json
  | enum
  | model
  | collection
deriving DecidableEq

namespace FieldType

def all : List FieldType :=
  [id, string, int, float, boolean, datetime, date, json, enum, model, collection]

def label : FieldType → String
  | id => "id"
  | string => "string"
  | int => "int"
  | float => "float"
  | boolean => "boolean"
  | datetime => "datetime"
  | date => "date"
  | json => "json"
  | enum => "enum"
  | model => "model"
  | collection => "collection"

def ofLabel? (s : String) : Option FieldType := all.find? fun t => t.label == s

@[simp] theorem ofLabel?_label (t : FieldType) : ofLabel? t.label = some t := by
  cases t <;> decide

end FieldType

inductive LinkKind where
  | belongsTo
  | hasOne
  | hasMany
deriving DecidableEq

namespace LinkKind

def all : List LinkKind := [belongsTo, hasOne, hasMany]

def label : LinkKind → String
  | belongsTo => "belongs_to"
  | hasOne => "has_one"
  | hasMany => "has_many"

def ofLabel? (s : String) : Option LinkKind := all.find? fun k => k.label == s

@[simp] theorem ofLabel?_label (k : LinkKind) : ofLabel? k.label = some k := by
  cases k <;> decide

end LinkKind

structure Reference where
  target : String
  kind : LinkKind
  limit : Option Nat
  sortField : Option Text
deriving DecidableEq

structure Connection where
  name : Option Text
  keyField : Option Text
  sortField : Option Text
  keyName : Option Text
  limit : Option Nat
  fields : List Text
  kind : LinkKind
  target : String
deriving DecidableEq

structure Field where
  name : String
  targetName : Text
  type : FieldType
  targetType : Option Text
  isRequired : Bool
  isArray : Bool
  isEnum : Bool
  isPrimaryKey : Bool
  reference : Option Reference
  connection : Option Connection
deriving DecidableEq

def Field.isForeignKey (f : Field) : Bool :=
  match f.reference with
  | some r => r.kind == .belongsTo
  | none => false

def Field.isConnected (f : Field) : Bool := f.connection.isSome

def Reference.toJson (r : Reference) : Json := .obj [
  ("target_model", .str r.target),
  ("kind", .str r.kind.label),
  ("limit", .ofOption (fun n : Nat => .int n) r.limit),
  ("sort_field", .ofOption .str r.sortField)]

def Connection.toJson (c : Connection) : Json := .obj [
  ("name", .ofOption .str c.name),
  ("key_field", .ofOption .str c.keyField),
  ("sort_field", .ofOption .str c.sortField),
  ("key_name", .ofOption .str c.keyName),
  ("limit", .ofOption (fun n : Nat => .int n) c.limit),
  ("fields", .arr (c.fields.map .str)),
  ("relationship", .str c.kind.label),
  ("connection_target", .str c.target)]

def Field.toJson (f : Field) : Json := .obj [
  ("name", .str f.name),
  ("target_name", .str f.targetName),
  ("declared_type", .str f.type.label),
  ("target_type", .ofOption .str f.targetType),
  ("is_required", .bool f.isRequired),
  ("is_array", .bool f.isArray),
  ("is_enum", .bool f.isEnum),
  ("is_primary_key", .bool f.isPrimaryKey),
  ("relationship", .ofOption Reference.toJson f.reference),
  ("connection", .ofOption Connection.toJson f.connection)]

end CanonicalSchema
