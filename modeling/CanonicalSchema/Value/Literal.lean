import CanonicalSchema.Binary64.Written
import CanonicalSchema.Json.Problem
import CanonicalSchema.Text.Quoted
import CanonicalSchema.Value.Basic

/-!
The literal of a value: one text for each value, with its type to be seen from it. An integer of
very many digits and a value that is nested very deep have a literal too, but cannot be put into
words: where that is tried, it fails.
-/

namespace CanonicalSchema.Value

def writeFloat (x : Binary64) : List Char :=
  if x.isNaN then "nan".toList
  else if x.isFinite then x.write
  else if x.isNegative then "-inf".toList
  else "inf".toList

mutual

def write : Value → List Char
  | null => "None".toList
  | bool b => (if b then "True" else "False").toList
  | int n => Digits.writeInt n
  | float x => writeFloat x
  | str s => Quoted.write s
  | tuple [v] => '(' :: (write v ++ [',', ')'])
  | tuple items => '(' :: (writeItems items ++ [')'])
  | list items => '[' :: (writeItems items ++ [']'])
  | map entries => "mappingproxy(\x7b".toList ++ writeEntries entries ++ ['\x7d', ')']
  | mutableMap entries => '\x7b' :: (writeEntries entries ++ ['\x7d'])
  | set [] => "set()".toList
  | set items => '\x7b' :: (writeItems items ++ ['\x7d'])
  | bytes bs => Quoted.writeBytes bs
  | decimal d => "Decimal('".toList ++ d.write ++ ['\'', ')']

def writeItems : List Value → List Char
  | [] => []
  | [v] => write v
  | v :: vs => write v ++ ',' :: ' ' :: writeItems vs

def writeEntries : List (Value × Value) → List Char
  | [] => []
  | [(k, v)] => write k ++ ':' :: ' ' :: write v
  | (k, v) :: es => write k ++ ':' :: ' ' :: (write v ++ ',' :: ' ' :: writeEntries es)

end

/-- Whether the value can be put into words is not looked at. -/
def literal (v : Value) : String := String.ofList (write v)

/-- The text of a value in running text: that of a string is the string itself. As with the literal,
whether there are words for the value is not looked at. -/
def text : Value → Text
  | str s => s
  | decimal d => .ofChars d.write
  | v => v.literal

end CanonicalSchema.Value

namespace CanonicalSchema

inductive WordingFault where
  | longInteger
  | tooDeep
deriving DecidableEq

namespace WordingFault

def message : WordingFault → String
  | longInteger =>
    "Exceeds the limit (" ++ toString Json.integerLimit
      ++ " digits) for integer string conversion; use sys.set_int_max_str_digits()"
      ++ " to increase the limit"
  | tooDeep => "maximum recursion depth exceeded while getting the repr of an object"

def faultClass : WordingFault → FaultClass
  | longInteger => .value
  | tooDeep => .recursion

end WordingFault

namespace Json

def literal (j : Json) : String := (Value.ofJson j).literal

def text (j : Json) : Text := (Value.ofJson j).text

def literalTexts (ss : List Text) : String := literal (arr (ss.map str))

mutual

/-- What is met first of what keeps a value from being put into words, with so many levels of the
stack left. Every value takes up one, be it a scalar. -/
def wordingFaultWithin? : (levels : Nat) → Json → Option WordingFault
  | 0, _ => some .tooDeep
  | _ + 1, int n => if IsShortInteger n then none else some .longInteger
  | levels + 1, arr items => wordingFaultOfItems? levels items
  | levels + 1, obj members => wordingFaultOfMembers? levels members
  | _ + 1, _ => none

def wordingFaultOfItems? (levels : Nat) : List Json → Option WordingFault
  | [] => none
  | v :: vs => (wordingFaultWithin? levels v).or (wordingFaultOfItems? levels vs)

def wordingFaultOfMembers? (levels : Nat) : List (Text × Json) → Option WordingFault
  | [] => none
  | (_, v) :: ms => (wordingFaultWithin? levels v).or (wordingFaultOfMembers? levels ms)

end

def wordingFault? (depth : Depth) (j : Json) : Option WordingFault :=
  wordingFaultWithin? depth.limit j

def inWords (depth : Depth) (j : Json) : Except WordingFault Text :=
  match j.wordingFault? depth with
  | none => .ok j.text
  | some fault => .error fault

end Json

end CanonicalSchema
