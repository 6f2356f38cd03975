import CanonicalSchema.Json.Quoted
import CanonicalSchema.Json.Scalar

/-!
JSON on indented lines: two spaces for each level, one member or element to a line, and nothing
between the brackets of an empty container.
-/

namespace CanonicalSchema.Json

def newline (level : Nat) (rest : List Char) : List Char :=
  '\n' :: (List.replicate (2 * level) ' ' ++ rest)

mutual

/-- Writes a value that starts on a line of the given level, in front of what follows. -/
def layout (level : Nat) : Json → List Char → List Char
  | null, rest => "null".toList ++ rest
  | bool b, rest => writeBool b ++ rest
  | int n, rest => Digits.writeInt n ++ rest
  | float x, rest => writeFloat x ++ rest
  | str s, rest => quoted escapeControl s rest
  | arr [], rest => '[' :: ']' :: rest
  | arr (v :: vs), rest =>
    '[' :: newline (level + 1)
      (layout (level + 1) v (layoutItems (level + 1) vs (newline level (']' :: rest))))
  | obj [], rest => '\x7b' :: '\x7d' :: rest
  | obj ((k, v) :: ms), rest =>
    '\x7b' :: newline (level + 1) (quoted escapeControl k (':' :: ' ' ::
      layout (level + 1) v (layoutMembers (level + 1) ms (newline level ('\x7d' :: rest)))))

def layoutItems (level : Nat) : List Json → List Char → List Char
  | [], rest => rest
  | v :: vs, rest => ',' :: newline level (layout level v (layoutItems level vs rest))

def layoutMembers (level : Nat) : List (Text × Json) → List Char → List Char
  | [], rest => rest
  | (k, v) :: ms, rest =>
    ',' :: newline level (quoted escapeControl k (':' :: ' ' ::
      layout level v (layoutMembers level ms rest)))

end

end CanonicalSchema.Json
