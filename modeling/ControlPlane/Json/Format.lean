import ControlPlane.Format
import ControlPlane.Json.Value
import ControlPlane.KeyMap

/-!
# JSON as a document format

A record is an object, or an array of its fields in the order of their names in which fields at the
end may be left out. Numbers have to be written as integers, and null is no value of any kind.

Besides the views of `Format` there are those that only JSON documents use: signed numbers, maps
from texts to texts, and words from a fixed list.
-/

namespace ControlPlane

namespace Json

/-- The text that a value is. Numbers and truth values are not taken for texts. -/
def text? : Json → Option String
  | string s => s.text?
  | _ => none

/-- The integer that a value is. A number with a fraction or an exponent is none, even if its value
is whole. -/
def integer? : Json → Option Int
  | number (.integer n) => some n
  | _ => none

/-- The natural number that a value is. -/
def natural? (j : Json) : Option Nat := do
  match ← j.integer? with
  | .ofNat n => some n
  | .negSucc _ => none

/-- The integer of sixty-four bits that a value is; one outside of their range is refused. -/
def signed64? (j : Json) : Option Int64 := do
  let n ← j.integer?
  if Int64.minValue.toInt ≤ n && n ≤ Int64.maxValue.toInt then some (Int64.ofInt n) else none

/-- The truth value that a value is. -/
def flag? : Json → Option Bool
  | bool b => some b
  | _ => none

/-- The items of an array. -/
def items? : Json → Option (List Json)
  | array items => some items
  | _ => none

/-- The members of an object whose names all have a text. A name without one cannot be compared with
the name of a field, so the whole object is refused. -/
def members? : Json → Option (List (String × Json))
  | object members => members.mapM fun member => return (← member.1.text?, member.2)
  | _ => none

/-- The fields of a record. It is an object, or an array with the values of the fields in their
order, of which there may not be too many. -/
def fields? (names : List String) : Json → Option (List (String × Json))
  | array items => if items.length ≤ names.length then some (names.zip items) else none
  | j => j.members?

instance : Format Option Json where
  refuse := none
  text := text?
  natural := natural?
  flag := flag?
  items := items?
  fields := fields?

/-- A map from texts to texts; of two members with one name the later one counts. A map has no fixed
names, so a name that occurs twice is not taken for a slip here. -/
def textMap? (j : Json) : Option (KeyMap String) := do
  let entries ← (← j.members?).mapM fun member => return (member.1, ← member.2.text?)
  return KeyMap.ofList entries

/-- The value of a word of a list, which is written as a text or as the name of a single null. -/
def word? {α : Type} (words : List (String × α)) : Json → Option α
  | string s => s.text? >>= fun word => words.lookup word
  | object [(name, null)] => name.text? >>= fun word => words.lookup word
  | _ => none

/-- The value of a map from texts to texts, with its members in ascending order. -/
def ofTextMap (m : KeyMap String) : Json :=
  record (m.entries.map fun entry => (entry.1, ofString entry.2))

end Json

end ControlPlane
