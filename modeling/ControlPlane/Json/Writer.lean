import ControlPlane.Json.Value
import ControlPlane.Text.Digits

/-!
# Writing JSON texts

The compact text of a value: no white space, members in their order. In strings only the quote, the
backslash and the control characters below U+0020 are escaped, with the short escape where there is
one; every other character stands for itself.
-/

namespace ControlPlane

namespace Json

/-- A code unit as an escape of four hexadecimal digits. -/
def unitEscape (unit : Nat) : List Char :=
  ['\x5c', 'u', hexDigit (unit / 4096 % 16), hexDigit (unit / 256 % 16), hexDigit (unit / 16 % 16),
    hexDigit (unit % 16)]

/-- A character as it stands in a string. Only what may not stand there as it is has an escape, and
the short one if there is one. -/
def escapeChar (c : Char) : List Char :=
  if c = '\x22' || c = '\x5c' then ['\x5c', c]
  else if c = '\x08' then ['\x5c', 'b']
  else if c = '\x0c' then ['\x5c', 'f']
  else if c = '\n' then ['\x5c', 'n']
  else if c = '\r' then ['\x5c', 'r']
  else if c = '\t' then ['\x5c', 't']
  else if c.toNat < 0x20 then unitEscape c.toNat
  else [c]

/-- A part of a literal as it stands in a string. -/
def Piece.print : Piece → List Char
  | .char c => escapeChar c
  | .half unit => unitEscape unit

/-- A string with its quotes. -/
def Literal.print : Literal → List Char
  | .text s => '\x22' :: (s.toList.flatMap escapeChar ++ ['\x22'])
  | .broken pieces => '\x22' :: (pieces.flatMap Piece.print ++ ['\x22'])

/-- A number, or what was read in its place. -/
def Numeral.print : Numeral → List Char
  | .integer (.ofNat n) => Nat.toDigits 10 n
  | .integer (.negSucc n) => '-' :: Nat.toDigits 10 (n + 1)
  | .other text => text.toList

mutual

/-- The compact text of a value, without any white space between its tokens. -/
def print : Json → List Char
  | null => ['n', 'u', 'l', 'l']
  | bool true => ['t', 'r', 'u', 'e']
  | bool false => ['f', 'a', 'l', 's', 'e']
  | number n => n.print
  | string s => s.print
  | array items => '[' :: (printItems items ++ [']'])
  | object members => '\x7b' :: (printMembers members ++ ['\x7d'])

/-- Items with commas between them. -/
def printItems : List Json → List Char
  | [] => []
  | [item] => item.print
  | item :: items => item.print ++ ',' :: printItems items

/-- Members with commas between them, in their order and with repetitions. -/
def printMembers : List (Literal × Json) → List Char
  | [] => []
  | [(name, value)] => name.print ++ ':' :: value.print
  | (name, value) :: members => name.print ++ ':' :: (value.print ++ ',' :: printMembers members)

end

/-- The compact text of a value. It is on one line, since line ends in strings are escaped. -/
def toText (j : Json) : String :=
  String.ofList j.print

end Json

end ControlPlane
