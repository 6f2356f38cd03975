import CanonicalSchema.Schema.Basic

/-!
What has changed from one version of a schema to the next, by the names of the fields.
-/

namespace CanonicalSchema

structure Difference where
  added : List String
  removed : List String
  changed : List String
  orderChanged : Bool
  indexChanged : Bool
deriving DecidableEq

namespace Difference

def hasChanges (d : Difference) : Bool :=
  !(d.added.isEmpty && d.removed.isEmpty && d.changed.isEmpty) || d.orderChanged || d.indexChanged

/-- The order has changed where the fields of both versions stand in another order. -/
def between (old new : Schema) : Difference :=
  let oldNames := old.fieldNames
  let newNames := new.fieldNames
  let inOld (n : String) : Bool := old.fields.contains n
  let inNew (n : String) : Bool := new.fields.contains n
  { added := newNames.filter fun n => !inOld n
    removed := oldNames.filter fun n => !inNew n
    changed := newNames.filter fun n => inOld n && old.field? n != new.field? n
    orderChanged := oldNames.filter inNew != newNames.filter inOld
    indexChanged := old.index != new.index }

end Difference

end CanonicalSchema
