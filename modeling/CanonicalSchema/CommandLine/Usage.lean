import CanonicalSchema.Storage.Path
import CanonicalSchema.Text.Quoted
import CanonicalSchema.Text.Similarity

/-!
The arguments of the command line: flags of the program, the name of a command, and then its flags
and its paths in any order. Two hyphens end the flags.
-/

namespace CanonicalSchema

inductive Command where
  | inspect (snapshot : Path)
  | compare (old new : Path)
  | help
deriving DecidableEq

inductive UsageFault where
  | missingCommand
  | unknownCommand (name : String)
  | unknownFlag (name : String) (similar : List String)
  | valueForFlag (name : String)
  | missingArgument (name : String)
  | nullInArgument (name : String)
  | extraArguments (args : List String)
deriving DecidableEq

namespace UsageFault

def text : UsageFault → String
  | missingCommand => "Missing command."
  | unknownCommand name => "No such command " ++ Quoted.text name ++ "."
  | unknownFlag name _ => "No such option: " ++ name
  | valueForFlag name => "Option " ++ Quoted.text name ++ " does not take a value."
  | missingArgument name => "Missing argument '" ++ name ++ "'."
  | nullInArgument name =>
    "Invalid value for '" ++ name ++ "': Value error, embedded null byte"
  | extraArguments args =>
    "Got unexpected extra argument(s) (" ++ String.intercalate " " args ++ ")"

def similarFlags : UsageFault → List String
  | unknownFlag _ similar => similar.mergeSort fun s t => Text.le s t
  | _ => []

end UsageFault

/-- What is wrong with the arguments, and the commands that may have been meant. -/
structure UsageFailure where
  fault : UsageFault
  commands : List String
deriving DecidableEq

namespace UsageFailure

def hint (opening : String) (names : List String) (closing : String) : String :=
  if names.isEmpty then "" else opening ++ String.intercalate ", " names ++ closing

def withoutStops (s : String) : String :=
  String.ofList (s.toList.reverse.dropWhile (· == '.')).reverse

/-- Commands are proposed in place of the full stop. -/
def text (f : UsageFailure) : String :=
  let sentence :=
    if f.commands.isEmpty then f.fault.text
    else
      withoutStops f.fault.text
        ++ hint ". Did you mean " (f.commands.map fun (s : String) => Quoted.text s) "?"
  sentence ++ hint " (Possible options: " f.fault.similarFlags ")"

def isControl (c : Char) : Bool := c.toNat < 0x20 || (0x7f ≤ c.toNat && c.toNat < 0xa0)

/-- Nothing that an argument holds may control the terminal. -/
def message (f : UsageFailure) : String :=
  String.ofList (f.text.toList.flatMap fun c =>
    if isControl c then '\\' :: 'x' :: Digits.writeHex 2 c.toNat else [c])

end UsageFailure

/-- The flags that may stand in one place: letters after one hyphen, and words after two. Some of
the words ask for help in place of anything else, the others change nothing about the output. -/
structure Flags where
  letters : List Char
  words : List String
  questions : List String

namespace Flags

def ofProgram : Flags where
  letters := ['v']
  words := ["--verbose"]
  questions := ["--install-completion", "--show-completion", "--help"]

def ofCommand : Flags where
  letters := []
  words := []
  questions := ["--help"]

/-- What is wrong with an argument that starts with a hyphen. -/
def fault? (flags : Flags) (arg : String) : Option UsageFault :=
  match arg.toList with
  | '-' :: '-' :: _ =>
    let known := flags.words ++ flags.questions
    let word := String.ofList (arg.toList.takeWhile (· != '='))
    if !known.contains word then some (.unknownFlag word (Similarity.closest word known))
    else if word == arg then none
    else some (.valueForFlag word)
  | _ :: cs => (cs.find? fun c => !flags.letters.contains c).map fun c =>
      .unknownFlag (String.ofList ['-', c]) []
  | [] => none

end Flags

namespace Command

/-- A hyphen alone is an argument. -/
def isFlag (arg : String) : Bool := arg.toList.head? == some '-' && arg != "-"

/-- Whether help is asked for, and the arguments from the first one on that is no flag; or else
what is wrong with a flag, and the arguments after it. -/
def skipFlags : List String → Except (UsageFault × List String) (Bool × List String)
  | [] => .ok (false, [])
  | arg :: rest =>
    if arg = "--" then .ok (false, rest)
    else if isFlag arg then
      match Flags.ofProgram.fault? arg with
      | some fault => .error (fault, rest)
      | none => (skipFlags rest).map fun r => (Flags.ofProgram.questions.contains arg || r.1, r.2)
    else .ok (false, arg :: rest)

def arguments : List String → Except UsageFault (Bool × List String)
  | [] => .ok (false, [])
  | arg :: rest =>
    if arg = "--" then .ok (false, rest)
    else if isFlag arg then
      match Flags.ofCommand.fault? arg with
      | some fault => .error fault
      | none => (arguments rest).map fun r => (Flags.ofCommand.questions.contains arg || r.1, r.2)
    else (arguments rest).map fun r => (r.1, arg :: r.2)

def path (name arg : String) : Except UsageFault Path :=
  if arg.toList.contains '\x00' then .error (.nullInArgument name) else .ok (.ofString arg)

def noMore : List String → Except UsageFault Unit
  | [] => .ok ()
  | args => .error (.extraArguments args)

def inspection : List String → Except UsageFault Command
  | [] => .error (.missingArgument "snapshot")
  | snapshot :: extra => do
    let snapshot ← path "snapshot" snapshot
    noMore extra
    return inspect snapshot

def comparison : List String → Except UsageFault Command
  | [] => .error (.missingArgument "old")
  | [old] => do
    let _ ← path "old" old
    .error (.missingArgument "new")
  | old :: new :: extra => do
    let old ← path "old" old
    let new ← path "new" new
    noMore extra
    return compare old new

def names : List String := ["show", "diff"]

def ofName (name : String) (args : List String) : Except UsageFault Command := do
  let (asked, args) ← arguments args
  if asked then return help
  if name = "show" then inspection args else comparison args

/-- The first of the arguments that are left may be the name of a command, misspelt. -/
def resembling (fault : UsageFault) (args : List String) : UsageFailure where
  fault
  commands :=
    match args with
    | [] => []
    | arg :: _ => Similarity.closest arg names

/-- A name may be unknown because it is a flag that two hyphens have kept from being read; so the
flags are read once more. -/
def unknown (name : String) (args : List String) : Except UsageFailure Command :=
  match skipFlags args with
  | .error (fault, rest) => .error (resembling fault rest)
  | .ok (true, _) => .ok help
  | .ok (false, rest) => .error (resembling (.unknownCommand name) rest)

def parse (args : List String) : Except UsageFailure Command :=
  match skipFlags args with
  | .error (fault, _) => .error ⟨fault, []⟩
  | .ok (true, _) => .ok help
  | .ok (false, []) => .error ⟨.missingCommand, []⟩
  | .ok (false, name :: rest) =>
    if names.contains name then (ofName name rest).mapError fun fault => ⟨fault, []⟩
    else unknown name (name :: rest)

def paths : Command → List Path
  | inspect snapshot => [snapshot]
  | compare old new => [old, new]
  | help => []

end Command

end CanonicalSchema
