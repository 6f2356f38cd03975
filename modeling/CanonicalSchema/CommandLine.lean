import CanonicalSchema.CommandLine.Report
import CanonicalSchema.CommandLine.Usage
import CanonicalSchema.Schema.Snapshot
import CanonicalSchema.Storage.FileFault

/-!
The command line: `show` prints one snapshot, `diff` compares two.
-/

namespace CanonicalSchema

/-- What ends a command without a report. -/
inductive CommandFault where
  | snapshot (fault : SnapshotFault)
  | file (fault : FileFault)
  | unencodable (text : Unencodable)
deriving DecidableEq

def CommandFault.message : CommandFault → String
  | snapshot fault => fault.message
  | file fault => fault.message
  | unencodable text => text.message

inductive Interruption where
  | report (r : Report)
  | fault (f : CommandFault)

namespace Command

/-- Looks up the content of a path that is a file. -/
abbrev Files := Path → Except FileFault (Option (List UInt8))

def load (depth : Depth) (files : Files) (path : Path) : Except Interruption Schema :=
  match files path with
  | .error fault => .error (.fault (.file fault))
  | .ok none => .error (.report (.failed ("Schema snapshot not found: " ++ path.text)))
  | .ok (some bytes) =>
    match Snapshot.load depth path bytes with
    | .ok s => .ok s
    | .error (.snapshot f) =>
      .error (.report (.failed ("Invalid schema snapshot: " ++ f.message)))
    | .error (.escaped fault) => .error (.fault (.snapshot fault))

def report (depth : Depth) (files : Files) : Command → Except Interruption Report
  | inspect snapshot => do
    let s ← load depth files snapshot
    return .ofSchema s
  | compare old new => do
    let a ← load depth files old
    let b ← load depth files new
    return .ofDifference (.between a b)
  | help => return .help

def run (depth : Depth) (files : Files) (c : Command) : Except CommandFault Output :=
  match c.report depth files with
  | .ok r => r.output.mapError .unencodable
  | .error (.report r) => r.output.mapError .unencodable
  | .error (.fault f) => .error f

end Command

end CanonicalSchema
