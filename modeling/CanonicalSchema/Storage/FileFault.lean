import CanonicalSchema.Storage.Path
import CanonicalSchema.Text.Quoted
import CanonicalSchema.Text.Utf8

/-!
Why a file cannot be reached, and the bounds on what can be the name of one.
-/

namespace CanonicalSchema

inductive FileProblem where
  | notFound
  | exists
  | notDirectory
  | isDirectory
  | nameTooLong
deriving DecidableEq

def FileProblem.message : FileProblem → String
  | notFound => "[Errno 2] No such file or directory"
  | .exists => "[Errno 17] File exists"
  | notDirectory => "[Errno 20] Not a directory"
  | isDirectory => "[Errno 21] Is a directory"
  | nameTooLong => "[Errno 36] File name too long"

/-- No file has the character zero in its name. -/
inductive FileFault where
  | refused (problem : FileProblem) (path : Path)
  | nullInPath
deriving DecidableEq

def FileFault.message : FileFault → String
  | refused problem path => problem.message ++ ": " ++ Quoted.text path.text
  | nullInPath => "embedded null byte"

namespace Path

def nameLimit : Nat := 255

def limit : Nat := 4095

def isLongName (part : String) : Bool := nameLimit < (Utf8.encode part).length

def isLong (p : Path) : Bool := limit < (Utf8.encode p.text).length

def holdsNull (p : Path) : Bool := p.parts.any fun part => part.toList.contains '\x00'

end Path

end CanonicalSchema
