import CanonicalSchema.Field.Basic

/-!
The canonical order of fields: connected fields, then plain ones, then primary keys, and by name
within each group. Fields that agree in all three stay as they were given.
-/

namespace CanonicalSchema

/-- Compared from left to right, with false before true and names by code points. -/
structure SortKey where
  primaryKey : Bool
  plain : Bool
  name : String
deriving DecidableEq

namespace SortKey

def before (a b : SortKey) : Bool :=
  if a.primaryKey != b.primaryKey then b.primaryKey
  else if a.plain != b.plain then b.plain
  else !Text.le b.name a.name

end SortKey

namespace Field

def sortKey (f : Field) : SortKey := ⟨f.isPrimaryKey, !f.isConnected, f.name⟩

def compare (a b : Field) : Ordering :=
  if b.sortKey.before a.sortKey then .gt
  else if a.sortKey.before b.sortKey then .lt
  else .eq

def sort (fs : List Field) : List Field :=
  fs.mergeSort fun a b => !b.sortKey.before a.sortKey

def sortByComparison (fs : List Field) : List Field :=
  fs.mergeSort fun a b => compare a b != .gt

end Field

end CanonicalSchema
