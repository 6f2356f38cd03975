import CanonicalSchema.Text
import CanonicalSchema.Text.Digits

/-!
Quoted strings in two spellings: one escapes only what must be, the other leaves nothing but
printable ASCII. Each function writes in front of the text that follows.
-/

namespace CanonicalSchema.Json

def shortEscape? : Char → Option Char
  | '"' => some '"'
  | '\\' => some '\\'
  | '\x08' => some 'b'
  | '\x0c' => some 'f'
  | '\n' => some 'n'
  | '\r' => some 'r'
  | '\t' => some 't'
  | _ => none

def escapeUnit (unit : Nat) (rest : List Char) : List Char :=
  '\\' :: 'u' :: (Digits.writeHex 4 unit ++ rest)

def escapeControl (c : Char) (rest : List Char) : List Char :=
  match shortEscape? c with
  | some letter => '\\' :: letter :: rest
  | none => if c.toNat < 32 then escapeUnit c.toNat rest else c :: rest

/-- Characters beyond the first plane become a pair of surrogates. -/
def escapeNonAscii (c : Char) (rest : List Char) : List Char :=
  match shortEscape? c with
  | some letter => '\\' :: letter :: rest
  | none =>
    if 32 ≤ c.toNat ∧ c.toNat < 127 then c :: rest
    else if c.toNat < 0x10000 then escapeUnit c.toNat rest
    else
      let n := c.toNat - 0x10000
      escapeUnit (0xd800 + n / 0x400) (escapeUnit (0xdc00 + n % 0x400) rest)

/-- A surrogate that is no half of a pair is always escaped. -/
def escapePoint (escape : Char → List Char → List Char) (p : CodePoint) (rest : List Char) :
    List Char :=
  match p with
  | .char c => escape c rest
  | .surrogate _ => escapeUnit p.toNat rest

def quoted (escape : Char → List Char → List Char) (s : Text) (rest : List Char) : List Char :=
  '"' :: s.points.foldr (escapePoint escape) ('"' :: rest)

end CanonicalSchema.Json
