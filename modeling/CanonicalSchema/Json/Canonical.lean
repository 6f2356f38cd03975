import CanonicalSchema.Json.Quoted
import CanonicalSchema.Json.Scalar

/-!
JSON on one line, in ASCII, with the members of every object sorted by their labels: one text for
all values that differ only in the order of their members.
-/

namespace CanonicalSchema.Json

mutual

/-- Writes a value on one line, in front of what follows. -/
def compact : Json → List Char → List Char
  | null, rest => "null".toList ++ rest
  | bool b, rest => writeBool b ++ rest
  | int n, rest => Digits.writeInt n ++ rest
  | float x, rest => writeFloat x ++ rest
  | str s, rest => quoted escapeNonAscii s rest
  | arr [], rest => '[' :: ']' :: rest
  | arr (v :: vs), rest => '[' :: compact v (compactItems vs (']' :: rest))
  | obj [], rest => '\x7b' :: '\x7d' :: rest
  | obj ((k, v) :: ms), rest =>
    '\x7b' :: quoted escapeNonAscii k (':' :: ' ' ::
      compact v (compactMembers ms ('\x7d' :: rest)))

def compactItems : List Json → List Char → List Char
  | [], rest => rest
  | v :: vs, rest => ',' :: ' ' :: compact v (compactItems vs rest)

def compactMembers : List (Text × Json) → List Char → List Char
  | [], rest => rest
  | (k, v) :: ms, rest =>
    ',' :: ' ' :: quoted escapeNonAscii k (':' :: ' ' :: compact v (compactMembers ms rest))

end

mutual

def sorted : Json → Json
  | arr items => arr (sortedItems items)
  | obj members => obj ((sortedMembers members).mergeSort fun a b => a.1.le b.1)
  | v => v

def sortedItems : List Json → List Json
  | [] => []
  | v :: vs => sorted v :: sortedItems vs

def sortedMembers : List (Text × Json) → List (Text × Json)
  | [] => []
  | (k, v) :: ms => (k, sorted v) :: sortedMembers ms

end

def canonicalText (j : Json) : String := String.ofList (compact (sorted j) [])

end CanonicalSchema.Json
