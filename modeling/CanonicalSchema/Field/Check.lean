import CanonicalSchema.Checked.Record
import CanonicalSchema.Checked.Scalar
import CanonicalSchema.Field.Basic

/-!
Fields from JSON descriptions. Before the attributes are checked, a target name that is blank
becomes the name, and a field of type enum is marked as one whatever was said about it.
-/

namespace CanonicalSchema

open Checked

def linkKind : Json → Checked LinkKind := oneOf (LinkKind.all.map LinkKind.label) LinkKind.ofLabel?

def fieldType : Json → Checked FieldType :=
  oneOf (FieldType.all.map FieldType.label) FieldType.ofLabel?

namespace Reference

def title : String := "Relationship"

def labels : List Text := ["target_model", "kind", "limit", "sort_field"]

def check : Json → Checked Reference :=
  record title fun ms =>
    mk <$> required ms "target_model" nonEmptyText
      <*> defaulted ms "kind" .belongsTo linkKind
      <*> defaulted ms "limit" none (nullable positive)
      <*> defaulted ms "sort_field" none (nullable text)
      <* onlyKnown labels ms

end Reference

namespace Connection

def title : String := "ModelConnection"

def labels : List Text :=
  ["name", "key_field", "sort_field", "key_name", "limit", "fields", "relationship",
    "connection_target"]

def check : Json → Checked Connection :=
  record title fun ms =>
    mk <$> defaulted ms "name" none (nullable text)
      <*> defaulted ms "key_field" none (nullable text)
      <*> defaulted ms "sort_field" none (nullable text)
      <*> defaulted ms "key_name" none (nullable text)
      <*> defaulted ms "limit" none (nullable positive)
      <*> defaulted ms "fields" [] texts
      <*> required ms "relationship" linkKind
      <*> required ms "connection_target" nonEmptyText
      <* onlyKnown labels ms

end Connection

namespace Field

def title : String := "FieldDescriptor"

def labels : List Text :=
  ["name", "target_name", "declared_type", "target_type", "is_required", "is_array", "is_enum",
    "is_primary_key", "relationship", "connection"]

def isNameStart (c : Char) : Bool :=
  ('A' ≤ c && c ≤ 'Z') || ('a' ≤ c && c ≤ 'z') || c == '_'

def isNamePart (c : Char) : Bool := isNameStart c || Digits.isDigit c

/-- A letter or underscore and at most 63 letters, digits and underscores; one line feed may end
the name. -/
def isName (s : String) : Bool :=
  match s.toList with
  | [] => false
  | c :: rest =>
    let part := rest.takeWhile isNamePart
    let after := rest.dropWhile isNamePart
    isNameStart c && part.length ≤ 63 && (after == [] || after == ['\n'])

def checkName (j : Json) : Checked String :=
  (nonEmptyText j).ensure fun s => if isName s then none else some (.fieldName s)

def isBlankAt (ms : Entries Text Json) (label : Text) : Bool :=
  ((ms.get? label).map Json.isBlank).getD true

/-- Gives the attribute the value of another one, unless it has one already. -/
def defaultTo (label source : Text) (ms : Entries Text Json) : Entries Text Json :=
  match ms.get? source with
  | some j => if isBlankAt ms label && !j.isBlank then ms.put label j else ms
  | none => ms

def isEnumType : Option Json → Bool
  | some (.str s) => s == (FieldType.enum.label : Text)
  | _ => false

def normalize (ms : Entries Text Json) : Entries Text Json :=
  let ms := defaultTo "target_name" "name" ms
  if isEnumType (ms.get? "declared_type") then ms.put "is_enum" (.bool true) else ms

def checkMembers (ms : Entries Text Json) : Checked Field :=
  mk <$> required ms "name" checkName
    <*> defaulted ms "target_name" ("" : String) text
    <*> required ms "declared_type" fieldType
    <*> defaulted ms "target_type" none (nullable text)
    <*> defaulted ms "is_required" false flag
    <*> defaulted ms "is_array" false flag
    <*> defaulted ms "is_enum" false flag
    <*> defaulted ms "is_primary_key" false flag
    <*> defaulted ms "relationship" none (nullable Reference.check)
    <*> defaulted ms "connection" none (nullable Connection.check)
    <* onlyKnown labels ms

/-- A field is not both a foreign key and connected. -/
def brokenRule? (f : Field) : Option Rule :=
  match f.reference, f.connection with
  | some r, some c =>
    if r.kind = .belongsTo then some (.foreignKeyAndConnection f.name r.target c.target) else none
  | _, _ => none

def check : Json → Checked Field :=
  record title fun ms => (checkMembers (normalize ms)).ensure brokenRule?

end Field

end CanonicalSchema
