import CanonicalSchema.Checked.Record
import CanonicalSchema.Checked.Scalar
import CanonicalSchema.Index.Basic
import CanonicalSchema.Table

/-!
The spellings of an index declaration: none, a ready index, a pair of a name and the fields, or an
object with either pair of labels. The fields are a sequence of names, never a text.
-/

namespace CanonicalSchema

open Checked

namespace Index

def title : String := "ModelIndex"

def labels : List Text := ["index_name", "index_field_names"]

def check : Json → Checked Index :=
  record title fun ms =>
    mk <$> defaulted ms "index_name" none (nullable text)
      <*> defaulted ms "index_field_names" [] texts
      <* onlyKnown labels ms

@[simp] theorem check_toJson (i : Index) : check i.toJson = accepted i := by
  have hn (name fields : Json) : Entries.get? [(("index_name" : Text), name),
      ("index_field_names", fields)] "index_name" = some name := by simp [Entries.get?_cons]
  have hf (name fields : Json) : Entries.get? [(("index_name" : Text), name),
      ("index_field_names", fields)] "index_field_names" = some fields := by
    simp [Entries.get?_cons]
  simp only [check, toJson, record, defaulted, hn, hf, nullable_text_ofOption, texts_map_str, under]
  rw [if_neg (by simp)]
  rfl

end Index

inductive IndexDeclaration where
  | absent
  | ready (index : Index)
  | tuple (items : List Json)
  | value (j : Json)

namespace IndexDeclaration

/-- The first of two labels that is there, be it null. -/
def memberOr (ms : Entries Text Json) (label other : Text) (default : Json) : Json :=
  ((ms.get? label).orElse fun _ => ms.get? other).getD default

/-- An index from its name and its fields; blank fields are none. -/
def ofParts (name fields : Json) : Except Malformed Index :=
  match fields with
  | .str s => .error (.textAsIndexFields (Quoted.text s))
  | fields =>
    match (if fields.isBlank then some [] else fields.items?) with
    | none => .error (.notIterable fields.typeName)
    | some items =>
      ((Index.check (.obj [("index_name", name), ("index_field_names", .arr items)])).titled
        Index.title).mapError .rejected

/-- A declaration of no spelling is put into words to be refused. -/
def unsupported (depth : Depth) (j : Json) (literal : String) : Malformed :=
  match j.wordingFault? depth with
  | none => .unsupportedIndex literal
  | some fault => .unwordable fault

def resolve (depth : Depth) : IndexDeclaration → Except Malformed Index
  | absent => .ok .empty
  | ready index => .ok index
  | tuple [name, fields] => ofParts name fields
  | tuple items =>
    .error (unsupported depth (.arr items) (Value.tuple (Value.ofItems items)).literal)
  | value .null => .ok .empty
  | value (.obj ms) =>
    ofParts (memberOr ms "name" "index_name" .null)
      (memberOr ms "fields" "index_field_names" (.arr []))
  | value j => .error (unsupported depth j j.literal)

end IndexDeclaration

end CanonicalSchema
