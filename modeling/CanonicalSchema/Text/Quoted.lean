import CanonicalSchema.Text
import CanonicalSchema.Text.Digits
import CanonicalSchema.Text.Printable

/-!
Texts and byte strings as literals. Single quotes, unless there are single quotes and no double
ones inside; what cannot be printed is escaped.
-/

namespace CanonicalSchema.Quoted

def quoteFor (hasSingle hasDouble : Bool) : Char := if hasSingle && !hasDouble then '"' else '\''

def escape (quote c : Char) : List Char :=
  if c = quote ∨ c = '\\' then ['\\', c]
  else if c = '\n' then ['\\', 'n']
  else if c = '\r' then ['\\', 'r']
  else if c = '\t' then ['\\', 't']
  else if Printable.isPrintable c then [c]
  else if c.toNat < 0x100 then '\\' :: 'x' :: Digits.writeHex 2 c.toNat
  else if c.toNat < 0x10000 then '\\' :: 'u' :: Digits.writeHex 4 c.toNat
  else '\\' :: 'U' :: Digits.writeHex 8 c.toNat

def escapePoint (quote : Char) : CodePoint → List Char
  | .char c => escape quote c
  | .surrogate offset => '\\' :: 'u' :: Digits.writeHex 4 (CodePoint.surrogate offset).toNat

def write (s : Text) : List Char :=
  let quote := quoteFor (s.points.contains (.char '\'')) (s.points.contains (.char '"'))
  quote :: (s.points.flatMap (escapePoint quote) ++ [quote])

/-- Bytes beyond ASCII are always escaped. -/
def escapeByte (quote : Char) (b : UInt8) : List Char :=
  if b.toNat < 127 then escape quote (Char.ofNat b.toNat)
  else '\\' :: 'x' :: Digits.writeHex 2 b.toNat

def writeBytes (bs : List UInt8) : List Char :=
  let quote := quoteFor (bs.contains 39) (bs.contains 34)
  'b' :: quote :: (bs.flatMap (escapeByte quote) ++ [quote])

def text (s : Text) : String := String.ofList (write s)

end CanonicalSchema.Quoted
