import CanonicalSchema.Json.Document
import CanonicalSchema.Json.Layout
import CanonicalSchema.Schema.Construction
import CanonicalSchema.Storage.Path

/-!
Snapshots: schemas as files that a person can read.
-/

namespace CanonicalSchema

namespace Snapshot

def directory : Path := ⟨false, [".modelkit"]⟩

def defaultPath : Path := directory.join ⟨false, ["schema.json"]⟩

def text (s : Schema) : String := String.ofList (s.toJson.layout 0 ['\n'])

def bytes (s : Schema) : List UInt8 := Utf8.encode (text s)

end Snapshot

/-- What is wrong with a file: its text, or the schema in it. -/
inductive SnapshotFault where
  | document (fault : Json.DocumentFault)
  | schema (fault : SchemaFault)
deriving DecidableEq

namespace SnapshotFault

def message : SnapshotFault → String
  | document fault => fault.message
  | schema (.rejected rejection) => (Malformed.rejected rejection).message
  | schema (.unencodable message) => message.message

def faultClass : SnapshotFault → FaultClass
  | document fault => fault.faultClass
  | schema fault => fault.faultClass

/-- The classes of what is reported as a failure of the snapshot. -/
def handled : SnapshotFault → List FaultClass
  | document _ => [.format, .decoding]
  | schema _ => [.validation]

end SnapshotFault

structure SnapshotFailure where
  path : Path
  modelName : Text
  fault : SnapshotFault

namespace SnapshotFailure

def detail (f : SnapshotFailure) : String :=
  match f.fault with
  | .document _ => "snapshot " ++ f.path.text ++ " is not valid UTF-8 JSON"
  | .schema _ => "invalid schema snapshot " ++ f.path.text

def message (f : SnapshotFailure) : Text := failureMessage f.modelName f.detail

end SnapshotFailure

inductive LoadFailure where
  | snapshot (failure : SnapshotFailure)
  | escaped (fault : SnapshotFault)

/-- What a fault comes to in a file whose schema goes by the name. -/
def LoadFailure.ofFault (path : Path) (modelName : Text) (fault : SnapshotFault) : LoadFailure :=
  if fault.faultClass.isHandledBy fault.handled then snapshot ⟨path, modelName, fault⟩
  else escaped fault

namespace Snapshot

/-- The name that a snapshot gives, or else that of its file. -/
def modelName (path : Path) (j : Json) : Text :=
  match j with
  | .obj members => ((Entries.get? members "name").map Json.text).getD path.stem
  | _ => path.stem

def load (depth : Depth) (path : Path) (bytes : List UInt8) : Except LoadFailure Schema :=
  match Json.ofBytes depth bytes with
  | .error fault => .error (.ofFault path path.stem (.document fault))
  | .ok j =>
    (Schema.ofJson j).mapError fun fault => .ofFault path (modelName path j) (.schema fault)

end Snapshot

namespace Options

def path (root : Path) : Path := (root.join Snapshot.directory).join ⟨false, ["config.json"]⟩

inductive ReadFailure where
  | document (fault : Json.DocumentFault)
  | rejected (rejection : Rejection)

def ofBytes (depth : Depth) (bytes : List UInt8) : Except ReadFailure Options :=
  match Json.ofBytes depth bytes with
  | .error fault => .error (.document fault)
  | .ok j => ((check j).titled title).mapError .rejected

end Options

end CanonicalSchema
