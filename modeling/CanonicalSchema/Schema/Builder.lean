import CanonicalSchema.Schema.Construction

/-!
A description collected step by step. What is written last counts; a key keeps the place at which
it was first written.
-/

namespace CanonicalSchema

structure Builder where
  name : Json
  options : Options
  targetName : Json
  fields : Entries Key FieldSource
  index : Option (Json × List Json)

namespace Builder

def start (name : Json) (options : Options) : Builder := ⟨name, options, .null, [], none⟩

def setTargetName (b : Builder) (targetName : Json) : Builder := { b with targetName }

def addField (b : Builder) (field : Field) : Builder :=
  { b with fields := b.fields.put (.str field.name) (.ready field) }

/-- The entries in front of one that cannot be read are added. -/
def addFields (b : Builder) (m : FieldMaterial) : Builder × Option Malformed :=
  ({ b with fields := b.fields.merge m.readable.1 }, m.readable.2)

/-- Whatever can be gone through is taken as the fields, a text by its characters. -/
def setIndex (b : Builder) (name fields : Json) : Builder × Option Malformed :=
  match fields.items? with
  | some items => ({ b with index := some (name, items) }, none)
  | none => (b, some (.notIterable fields.typeName))

def description (b : Builder) : Description where
  name := b.name
  targetName := b.targetName
  fields := .table b.fields
  options := b.options
  index :=
    match b.index with
    | some (name, items) => .tuple [name, .arr items]
    | none => .absent

def build (b : Builder) (depth : Depth) : Except BuildFault Schema := b.description.build depth

end Builder

end CanonicalSchema
