import CanonicalSchema.Json.Basic

/-!
The secondary index of a model: a name, if it has one, and the indexed fields in order.
-/

namespace CanonicalSchema

structure Index where
  name : Option Text
  fields : List Text
deriving DecidableEq

namespace Index

def empty : Index := ⟨none, []⟩

def isEmpty (i : Index) : Bool := i.name.isNone && i.fields.isEmpty

def toJson (i : Index) : Json := .obj [
  ("index_name", .ofOption .str i.name),
  ("index_field_names", .arr (i.fields.map .str))]

end Index

end CanonicalSchema
