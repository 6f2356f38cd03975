import CanonicalSchema.Fault
import CanonicalSchema.Text.Digits

/-!
What can be wrong with a JSON text, and where.
-/

namespace CanonicalSchema.Json

inductive Problem where
  | byteOrderMark
  | noValue
  | noPropertyName
  | noColon
  | noComma
  | unterminatedString
  | controlCharacter
  | unknownEscape
  | brokenUnicodeEscape
  | extraData
deriving DecidableEq

def Problem.message : Problem → String
  | byteOrderMark => "Unexpected UTF-8 BOM (decode using utf-8-sig)"
  | noValue => "Expecting value"
  | noPropertyName => "Expecting property name enclosed in double quotes"
  | noColon => "Expecting ':' delimiter"
  | noComma => "Expecting ',' delimiter"
  | unterminatedString => "Unterminated string starting at"
  | controlCharacter => "Invalid control character at"
  | unknownEscape => "Invalid \\escape"
  | brokenUnicodeEscape => "Invalid \\uXXXX escape"
  | extraData => "Extra data"

/-- Offsets start at zero, lines and columns at one. -/
structure Place where
  line : Nat
  column : Nat
  offset : Nat
deriving DecidableEq

/-- The place in a text at which one of its suffixes starts. -/
def Place.ofSuffix (text suffix : List Char) : Place :=
  let before := text.take (text.length - suffix.length)
  { line := before.count '\n' + 1
    column := (before.reverse.takeWhile (· != '\n')).length + 1
    offset := before.length }

inductive Container where
  | array
  | object
deriving DecidableEq

def Container.label : Container → String
  | array => "array"
  | object => "object"

inductive ReadFailure where
  | malformed (problem : Problem) (place : Place)
  | longInteger (digits : Nat)
  | tooDeep (container : Container)
deriving DecidableEq

def integerLimit : Nat := 4300

/-- An integer of no more digits than are read and written in words. -/
def IsShortInteger (n : Int) : Prop := (Digits.write n.natAbs).length ≤ integerLimit

instance (n : Int) : Decidable (IsShortInteger n) := inferInstanceAs (Decidable (_ ≤ _))

def ReadFailure.message : ReadFailure → String
  | malformed problem place =>
    problem.message ++ ": line " ++ toString place.line ++ " column " ++ toString place.column
      ++ " (char " ++ toString place.offset ++ ")"
  | longInteger digits =>
    "Exceeds the limit (" ++ toString integerLimit
      ++ " digits) for integer string conversion: value has " ++ toString digits
      ++ " digits; use sys.set_int_max_str_digits() to increase the limit"
  | tooDeep container =>
    "maximum recursion depth exceeded while decoding a JSON " ++ container.label
      ++ " from a unicode string"

def ReadFailure.faultClass : ReadFailure → FaultClass
  | malformed _ _ => .format
  | longInteger _ => .value
  | tooDeep _ => .recursion

/-- Why a step could not be taken, with the text from the offending character on. -/
inductive Stop where
  | malformed (problem : Problem) (suffix : List Char)
  | longInteger (digits : Nat)
  | tooDeep (container : Container)

def Stop.located (text : List Char) : Stop → ReadFailure
  | malformed problem suffix => .malformed problem (Place.ofSuffix text suffix)
  | longInteger digits => .longInteger digits
  | tooDeep container => .tooDeep container

end CanonicalSchema.Json
