/-!
# JSON values

A value as its text describes it. Two kinds of literals are valid text without being values that
a document could use, and are kept for what they are: a string with an escaped half of a surrogate
pair, and a number that is not written as an integer.
-/

namespace ControlPlane

namespace Json

/-- A part of a string literal: a character, or an escaped code unit that is one half of a surrogate
pair without the other. Such a half may be written but is no character, so it makes a literal
without a text and not a document that cannot be read. -/
inductive Piece where
  | char (c : Char)
  | half (unit : Nat)
deriving DecidableEq, Inhabited

/-- A string literal. Only one without lone halves has a text; the others are kept as they are,
since a field that nobody reads may well have one. -/
inductive Literal where
  | text (s : String)
  | broken (pieces : List Piece)
deriving DecidableEq, Inhabited

/-- The text of a literal, if it has one. -/
def Literal.text? : Literal → Option String
  | text s => some s
  | broken _ => none

/-- A number literal: an integer without fraction and exponent, or anything else, as written.
Negative zero counts as something else, so that every integer is written in one way. -/
inductive Numeral where
  | integer (n : Int)
  | other (text : String)
deriving DecidableEq, Inhabited

end Json

/-- A JSON value. Members of an object keep their order, and names may repeat; whether that is
allowed is up to those who read the object. -/
inductive Json where
  | null
  | bool (b : Bool)
  | number (n : Json.Numeral)
  | string (s : Json.Literal)
  | array (items : List Json)
  | object (members : List (Json.Literal × Json))
deriving Inhabited

namespace Json

/-- The value of a text, which has no lone halves. -/
def ofString (s : String) : Json := string (.text s)

/-- The value of a natural number. -/
def ofNat (n : Nat) : Json := number (.integer n)

/-- An object with the given names and values, in the order given. -/
def record (fields : List (String × Json)) : Json :=
  object (fields.map fun field => (.text field.1, field.2))

/-- The value under the first occurrence of a name in an object. -/
def member? (name : String) : Json → Option Json
  | object members => members.lookup (.text name)
  | _ => none

end Json

end ControlPlane
