import ControlPlane.Json.Value
import ControlPlane.Text.Digits
import ControlPlane.Text.Pieces

/-!
# Reading JSON texts

A reader for one JSON value and nothing after it but white space. It accepts exactly the grammar:
no leading zeros, no control characters in strings, no other escapes than the eight short ones and
four hexadecimal digits. Nesting is not limited, and nothing is rounded.

The recursion over values is bounded by a counter that starts at twice the length of the text, since
every two steps consume a character.
-/

namespace ControlPlane

namespace Json

/-- White space between tokens. These four characters are all; other blanks are refused. -/
def isSpace (c : Char) : Bool :=
  c == ' ' || c == '\n' || c == '\t' || c == '\r'

/-- The text from its first character that is not white space. -/
def skipSpace (text : List Char) : List Char :=
  text.dropWhile isSpace

/-- The character that a short escape stands for. -/
def shortEscape? (c : Char) : Option Char :=
  if c = '\x22' || c = '\x5c' || c = '/' then some c
  else if c = 'b' then some '\x08'
  else if c = 'f' then some '\x0c'
  else if c = 'n' then some '\n'
  else if c = 'r' then some '\r'
  else if c = 't' then some '\t'
  else none

/-- The part that an escaped code unit stands for: a character, or half of one. -/
def pieceOfUnit (unit : Nat) : Piece :=
  if 0xD800 ≤ unit && unit ≤ 0xDFFF then .half unit else .char (Char.ofNat unit)

/-- The parts of a string up to its closing quote, with the text behind the quote. Control
characters have to be escaped. Halves are not joined yet, since two of them may have been written in
different ways. -/
def readPieces : List Char → Option (List Piece × List Char)
  | [] => none
  | c :: text =>
    if c = '\x22' then some ([], text)
    else if c = '\x5c' then
      match text with
      | [] => none
      | e :: text =>
        if e = 'u' then
          match text with
          | h₁ :: h₂ :: h₃ :: h₄ :: text => do
            let unit ← numeral? 16 hexValue? [h₁, h₂, h₃, h₄]
            let (pieces, rest) ← readPieces text
            return (pieceOfUnit unit :: pieces, rest)
          | _ => none
        else do
          let c ← shortEscape? e
          let (pieces, rest) ← readPieces text
          return (.char c :: pieces, rest)
    else if c.toNat < 0x20 then none
    else do
      let (pieces, rest) ← readPieces text
      return (.char c :: pieces, rest)

/-- The character of a surrogate pair. -/
def charOfHalves (high low : Nat) : Char :=
  Char.ofNat (0x10000 + (high - 0xD800) * 0x400 + (low - 0xDC00))

/-- Joins a leading half with the trailing half that follows it. Halves in any other order stay
alone. -/
def joinHalves : List Piece → List Piece
  | .half high :: .half low :: rest =>
    if high < 0xDC00 && 0xDC00 ≤ low then .char (charOfHalves high low) :: joinHalves rest
    else .half high :: joinHalves (.half low :: rest)
  | piece :: rest => piece :: joinHalves rest
  | [] => []

/-- The characters of the parts, if none is a lone half. -/
def charsOf? : List Piece → Option (List Char)
  | [] => some []
  | .char c :: rest => (charsOf? rest).map (c :: ·)
  | .half _ :: _ => none

/-- The literal made of parts. -/
def Literal.ofPieces (pieces : List Piece) : Literal :=
  match charsOf? (joinHalves pieces) with
  | some chars => .text (String.ofList chars)
  | none => .broken (joinHalves pieces)

/-- A string from behind its opening quote. -/
def readLiteral (text : List Char) : Option (Literal × List Char) := do
  let (pieces, rest) ← readPieces text
  return (.ofPieces pieces, rest)

/-- Whether the character is a decimal digit. -/
def isDigit (c : Char) : Bool := (digitValue? c).isSome

/-- A fraction, with its point, if there is one. A point without a digit behind it is refused. -/
def readFraction : List Char → Option (List Char × List Char)
  | '.' :: text =>
    let digits := text.takeWhile isDigit
    if digits.isEmpty then none else some ('.' :: digits, text.dropWhile isDigit)
  | text => some ([], text)

/-- An exponent, with its letter, if there is one. -/
def readExponent : List Char → Option (List Char × List Char)
  | [] => some ([], [])
  | e :: text =>
    if e = 'e' || e = 'E' then
      let sign := match text with
        | c :: _ => if c = '+' || c = '-' then [c] else []
        | [] => []
      let digits := text.drop sign.length
      if (digits.takeWhile isDigit).isEmpty then none
      else some (e :: sign ++ digits.takeWhile isDigit, digits.dropWhile isDigit)
    else some ([], e :: text)

/-- A number from behind its sign. A zero in front of other digits is refused. -/
def readUnsigned (negative : Bool) (text : List Char) : Option (Numeral × List Char) := do
  let whole := text.takeWhile isDigit
  guard (!whole.isEmpty && (whole.head? != some '0' || whole.length == 1))
  let (fraction, rest) ← readFraction (text.dropWhile isDigit)
  let (exponent, rest) ← readExponent rest
  let value ← numeral? 10 digitValue? whole
  if fraction.isEmpty && exponent.isEmpty && !(negative && value == 0) then
    return (.integer (if negative then -value else value), rest)
  else
    let sign := if negative then ['-'] else []
    return (.other (String.ofList (sign ++ whole ++ fraction ++ exponent)), rest)

/-- A number. -/
def readNumeral : List Char → Option (Numeral × List Char)
  | '-' :: text => readUnsigned true text
  | text => readUnsigned false text

/-- The values that are written as words. -/
def readWord (text : List Char) : Option (Json × List Char) :=
  match afterLead? ['n', 'u', 'l', 'l'] text with
  | some rest => some (null, rest)
  | none =>
    match afterLead? ['t', 'r', 'u', 'e'] text with
    | some rest => some (bool true, rest)
    | none => (afterLead? ['f', 'a', 'l', 's', 'e'] text).map fun rest => (bool false, rest)

mutual

/-- A value at the beginning of a text, after white space, with the text behind it. The bound counts
down with every value inside another one, which is what makes the recursion end; no text has more of
them than characters. -/
def readValue : (bound : Nat) → List Char → Option (Json × List Char)
  | 0, _ => none
  | bound + 1, text =>
    match skipSpace text with
    | [] => none
    | c :: text =>
      if c = '\x22' then (readLiteral text).map fun (s, rest) => (string s, rest)
      else if c = '[' then
        match skipSpace text with
        | ']' :: rest => some (array [], rest)
        | text => (readItems bound text).map fun (items, rest) => (array items, rest)
      else if c = '\x7b' then
        match skipSpace text with
        | '\x7d' :: rest => some (object [], rest)
        | text => (readMembers bound text).map fun (members, rest) => (object members, rest)
      else if c = '-' || isDigit c then
        (readNumeral (c :: text)).map fun (n, rest) => (number n, rest)
      else readWord (c :: text)

/-- The items of an array that has at least one, up to and with its closing bracket. A comma has to
be followed by another item. -/
def readItems : (bound : Nat) → List Char → Option (List Json × List Char)
  | 0, _ => none
  | bound + 1, text => do
    let (item, text) ← readValue bound text
    match skipSpace text with
    | ',' :: text =>
      let (items, rest) ← readItems bound text
      return (item :: items, rest)
    | ']' :: rest => return ([item], rest)
    | _ => none

/-- The members of an object that has at least one, up to and with its closing brace. -/
def readMembers : (bound : Nat) → List Char → Option (List (Literal × Json) × List Char)
  | 0, _ => none
  | bound + 1, text =>
    match skipSpace text with
    | '\x22' :: text => do
      let (name, text) ← readLiteral text
      match skipSpace text with
      | ':' :: text =>
        let (value, text) ← readValue bound text
        match skipSpace text with
        | ',' :: text =>
          let (members, rest) ← readMembers bound text
          return ((name, value) :: members, rest)
        | '\x7d' :: rest => return ([(name, value)], rest)
        | _ => none
      | _ => none
    | _ => none

end

/-- The value that a text consists of, with white space around it. A text with something else behind
its value is refused, so it has one value at most. -/
def parse (text : List Char) : Option Json := do
  let (value, rest) ← readValue (2 * text.length + 2) text
  guard (skipSpace rest).isEmpty
  return value

/-- The value that a text consists of. -/
def ofText? (text : String) : Option Json :=
  parse text.toList

end Json

end ControlPlane
