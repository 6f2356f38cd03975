import CanonicalSchema.Schema.Difference
import CanonicalSchema.Schema.Fingerprint
import CanonicalSchema.Text.Surrogate

/-!
What a command prints about a schema or about the difference between two, line by line.
-/

namespace CanonicalSchema

structure Report where
  exitCode : Nat
  out : List Text
  err : List Text
deriving DecidableEq

structure Output where
  exitCode : Nat
  stdout : String
  stderr : String
deriving DecidableEq

namespace Report

/-! Lines -/

def isParameter : CodePoint → Bool
  | .char c => c == ';' || c == '?' || Digits.isDigit c
  | .surrogate _ => false

def isLetter : CodePoint → Bool
  | .char c => c.isAlpha
  | .surrogate _ => false

/-- The text after an escape sequence that starts with an escape character and a bracket. -/
def afterSequence? (ps : List CodePoint) : Option (List CodePoint) :=
  match ps.dropWhile isParameter with
  | p :: rest => if isLetter p then some rest else none
  | [] => none

theorem afterSequence?_length {ps rest : List CodePoint} (h : afterSequence? ps = some rest) :
    rest.length < ps.length := by
  have hd := (List.dropWhile_suffix (l := ps) isParameter).length_le
  unfold afterSequence? at h
  split at h
  · next p r hp =>
    rw [hp] at hd
    split at h
    · obtain rfl := Option.some.inj h
      simp only [List.length_cons] at hd
      omega
    · contradiction
  · contradiction

/-- Leaves out the sequences that would colour the output of a terminal. -/
def plain : List CodePoint → List CodePoint
  | [] => []
  | .char '\x1b' :: .char '[' :: rest =>
    match _h : afterSequence? rest with
    | some after => plain after
    | none => .char '\x1b' :: plain (.char '[' :: rest)
  | p :: rest => p :: plain rest
termination_by ps => ps.length
decreasing_by
  · have := afterSequence?_length _h
    simp only [List.length_cons]
    omega
  · simp
  · simp

def printed (line : Text) : Text := ⟨plain line.points⟩ ++ "\n"

def stdout (r : Report) : Except Unencodable String :=
  (r.out.mapM fun line => (printed line).encodable).map String.join

def stderr (r : Report) : String :=
  String.join (r.err.map fun line => (printed line).escapedSurrogates)

/-- Only what goes to the standard output has to be encodable. -/
def output (r : Report) : Except Unencodable Output :=
  r.stdout.map fun stdout => ⟨r.exitCode, stdout, r.stderr⟩

/-! Schemas and differences -/

def ofNames (names : List String) : String :=
  if names.isEmpty then "-" else String.intercalate ", " names

def markers (f : Field) : List String :=
  (if f.isPrimaryKey then ["pk"] else [])
    ++ (match f.reference with
      | some r => if f.isForeignKey then ["fk -> " ++ r.target] else []
      | none => [])
    ++ (match f.connection with
      | some c => [c.kind.label ++ " -> " ++ c.target]
      | none => [])

def fieldLine (f : Field) : Text :=
  let target : Text := if f.targetName = f.name then "" else " as " ++ f.targetName
  let suffix :=
    if (markers f).isEmpty then "" else "  [" ++ String.intercalate ", " (markers f) ++ "]"
  "  " ++ f.name ++ target ++ ": " ++ f.type.label ++ suffix

def indexLines (i : Index) : List Text :=
  if i.isEmpty then []
  else
    let name : Text := match i.name with
      | some n => if n.isEmpty then "-" else n
      | none => "-"
    ["Index: " ++ name ++ " (" ++ Text.join ", " i.fields ++ ")"]

def headLines (s : Schema) : List Text := [
  "Model: " ++ s.name ++ " (target: " ++ s.targetName ++ ")",
  "Fingerprint: " ++ s.fingerprint,
  "Fields:"]

def summaryLines (s : Schema) : List Text := [
  "Primary key: " ++ ofNames (s.primaryKey?.toList.map Field.name),
  "Foreign keys: " ++ ofNames (s.foreignKeys.map Field.name),
  "Connections: " ++ ofNames (s.connections.map fun c => c.1.name)]

def ofSchema (s : Schema) : Report where
  exitCode := 0
  err := []
  out := headLines s ++ s.sortedFields.map fieldLine ++ summaryLines s ++ indexLines s.index

def changeLines (d : Difference) : List String :=
  d.added.map ("+ " ++ ·) ++ d.removed.map ("- " ++ ·) ++ d.changed.map ("~ " ++ ·)
    ++ (if d.orderChanged then ["Canonical order changed."] else [])
    ++ (if d.indexChanged then ["Index changed."] else [])

def ofDifference (d : Difference) : Report :=
  if d.hasChanges then { exitCode := 2, out := (changeLines d).map .ofString, err := [] }
  else { exitCode := 0, out := ["No changes."], err := [] }

def failed (line : Text) : Report := { exitCode := 1, out := [], err := [line] }

def help : Report where
  exitCode := 0
  err := []
  out := ["show SNAPSHOT  Print a schema's fields in canonical order.",
    "diff OLD NEW   Compare two schema snapshots. Exits with code 2 when they differ."]

end Report

end CanonicalSchema
