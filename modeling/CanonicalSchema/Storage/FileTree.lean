import CanonicalSchema.Entries
import CanonicalSchema.Storage.FileFault

/-!
Files and directories around a current directory, which is there from the start, as are the
directories above it. Every path is taken from the current directory.
-/

namespace CanonicalSchema

/-- A place `up` levels above the current directory and from there down by names, the innermost
first. -/
structure Location where
  up : Nat
  names : List String
deriving DecidableEq

namespace Location

def here : Location := ⟨0, []⟩

def child (l : Location) (name : String) : Location := { l with names := name :: l.names }

def parent (l : Location) : Location :=
  match l.names with
  | [] => ⟨l.up + 1, []⟩
  | _ :: rest => ⟨l.up, rest⟩

end Location

inductive FileNode where
  | file (bytes : List UInt8)
  | directory

structure FileTree where
  files : Entries Location (List UInt8)
  directories : List Location

namespace FileTree

def empty : FileTree := ⟨[], []⟩

def node? (t : FileTree) (l : Location) : Option FileNode :=
  if l.names.isEmpty then some .directory
  else
    match t.files.get? l with
    | some bytes => some (.file bytes)
    | none => if t.directories.contains l then some .directory else none

/-- The location one component further; what is passed through has to be a directory. -/
def enter (t : FileTree) (l : Location) (part : String) : Except FileProblem Location :=
  match t.node? l with
  | none => .error .notFound
  | some (.file _) => .error .notDirectory
  | some .directory =>
    if Path.isLongName part then .error .nameTooLong
    else .ok (if part = ".." then l.parent else l.child part)

def locate (t : FileTree) (p : Path) : Except FileFault Location :=
  if p.holdsNull then .error .nullInPath
  else if p.isLong then .error (.refused .nameTooLong p)
  else (p.parts.foldlM t.enter .here).mapError fun problem => .refused problem p

def lookup (t : FileTree) (p : Path) : Except FileFault FileNode :=
  match t.locate p with
  | .error fault => .error fault
  | .ok l =>
    match t.node? l with
    | some n => .ok n
    | none => .error (.refused .notFound p)

/-- What a path leads to, if there is anything; only a name that is too long leaves it open. -/
def find (t : FileTree) (p : Path) : Except FileFault (Option FileNode) :=
  match t.lookup p with
  | .ok n => .ok (some n)
  | .error (.refused .nameTooLong q) => .error (.refused .nameTooLong q)
  | .error _ => .ok none

def hasNode (t : FileTree) (p : Path) : Except FileFault Bool := (t.find p).map Option.isSome

/-- The content of a file; nothing where there is none. -/
def file? (t : FileTree) (p : Path) : Except FileFault (Option (List UInt8)) :=
  (t.find p).map fun
    | some (.file bytes) => some bytes
    | _ => none

def isDirectory (t : FileTree) (p : Path) : Bool :=
  match t.lookup p with
  | .ok .directory => true
  | _ => false

def read (t : FileTree) (p : Path) : Except FileFault (List UInt8) :=
  match t.lookup p with
  | .ok (.file bytes) => .ok bytes
  | .ok .directory => .error (.refused .isDirectory p)
  | .error fault => .error fault

def makeDirectory (t : FileTree) (p : Path) : Except FileFault FileTree :=
  match t.locate p with
  | .error fault => .error fault
  | .ok l =>
    match t.node? l with
    | some _ => .error (.refused .exists p)
    | none => .ok { t with directories := t.directories ++ [l] }

def ensureDirectory (t : FileTree) (p : Path) : FileTree × Option FileFault :=
  match t.makeDirectory p with
  | .ok t => (t, none)
  | .error fault => (t, if t.isDirectory p then none else some fault)

def lacksParent (t : FileTree) (p : Path) : Bool :=
  match t.makeDirectory p with
  | .error (.refused .notFound _) => !p.parts.isEmpty
  | _ => false

/-- Makes a directory and those above it that are missing; what was made before a fault stays. -/
def makeDirectories (t : FileTree) (p : Path) : FileTree × Option FileFault :=
  if _h : t.lacksParent p then
    match makeDirectories t p.parent with
    | (t, some fault) => (t, some fault)
    | (t, none) => t.ensureDirectory p
  else t.ensureDirectory p
termination_by p.parts.length
decreasing_by
  have : p.parts ≠ [] := by
    intro hp
    simp only [lacksParent, hp] at _h
    split at _h <;> simp at _h
  have := List.length_pos_iff.2 this
  simp only [Path.parent, List.length_dropLast]
  omega

def write (t : FileTree) (p : Path) (bytes : List UInt8) : Except FileFault FileTree :=
  match t.locate p with
  | .error fault => .error fault
  | .ok l =>
    match t.node? l with
    | some .directory => .error (.refused .isDirectory p)
    | _ => .ok { t with files := t.files.put l bytes }

/-- Writes a file, after the directories above it have been made. -/
def save (t : FileTree) (p : Path) (bytes : List UInt8) : FileTree × Option FileFault :=
  match t.makeDirectories p.parent with
  | (t, some fault) => (t, some fault)
  | (t, none) =>
    match t.write p bytes with
    | .ok t => (t, none)
    | .error fault => (t, some fault)

/-- The files in and below the current directory, by their paths. -/
def listing (t : FileTree) : List String :=
  ((t.files.keys.filter fun l => l.up == 0).map fun l =>
    String.intercalate "/" l.names.reverse).mergeSort fun a b => Text.le a b

end FileTree

end CanonicalSchema
