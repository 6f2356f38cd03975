/-!
Paths by their components. Empty components and single dots say nothing and are left out; double
dots stay, since what they mean depends on the files.
-/

namespace CanonicalSchema

structure Path where
  absolute : Bool
  parts : List String
deriving DecidableEq

namespace Path

def splitSlash : List Char → List (List Char)
  | [] => [[]]
  | c :: rest =>
    if c = '/' then [] :: splitSlash rest
    else
      match splitSlash rest with
      | [] => [[c]]
      | part :: parts => (c :: part) :: parts

def ofString (s : String) : Path :=
  let cs := s.toList
  { absolute := cs.head? == some '/'
    parts := ((splitSlash cs).filter fun p => p != [] && p != ['.']).map String.ofList }

def text (p : Path) : String :=
  if p.absolute then "/" ++ String.intercalate "/" p.parts
  else if p.parts.isEmpty then "."
  else String.intercalate "/" p.parts

def join (p q : Path) : Path := if q.absolute then q else { p with parts := p.parts ++ q.parts }

def parent (p : Path) : Path := { p with parts := p.parts.dropLast }

def name (p : Path) : String := p.parts.getLast?.getD ""

/-- The name up to its last point, unless the point is its first or its last character. -/
def stem (p : Path) : String :=
  let cs := p.name.toList
  let extension := (cs.reverse.takeWhile (· != '.')).length
  let before := cs.take (cs.length - extension - 1)
  if extension = 0 ∨ extension = cs.length ∨ before = [] then p.name else String.ofList before

end Path

end CanonicalSchema
