import ControlPlane.Format
import ControlPlane.Text.Digits
import ControlPlane.Text.Pieces
import ControlPlane.Yaml.Node.OfTokens

/-!
# YAML as a document format

A scalar of any style is the text that it was read as, so that a plain `null` or `0x1F` is a text
like any other. Numbers and truth values have to be plain, or literal with the tag of their type.
An absent node is an empty list and an empty record.

Aliases are followed where a value is looked at. Since a document may refer to itself, it may be
followed one hundred times for each of its nodes and no more.
-/

namespace ControlPlane.Yaml

/-- Reading a document: its anchored nodes, and how many more aliases may be followed. The number is
a state and not a bound on the depth, since a document with few aliases may otherwise be read as a
very large one. -/
abbrev Following := ReaderT (List Anchored) (StateT Nat Option)

namespace Following

/-- Gives the document up. -/
def refuse {α : Type} : Following α := fun _ _ => none

/-- The value that an option holds. -/
def ofOption {α : Type} : Option α → Following α
  | some a => pure a
  | none => refuse

/-- The node that an alias refers to; any other node is itself. Each step along an alias is counted.
-/
def follow : Node → Following Node
  | .alias number => fun anchored left =>
    match left, lastAnchored? number anchored with
    | left + 1, some found => some (found.node, left)
    | _, _ => none
  | node => pure node

end Following

/-- The tag of integers. -/
def integerTag : String := "tag:yaml.org,2002:int"

/-- The tag of truth values. -/
def boolTag : String := "tag:yaml.org,2002:bool"

/-- Whether a scalar may stand for a value of the type with the given tag. A plain one may, whatever
its own tag is; of the others only a literal block that has this very tag. -/
def mayBe (expected : String) (style : Style) (tag : Option String) : Bool :=
  style == .plain || (style == .literal && tag == some expected)

/-- A number in a base whose digits `text` consists of, without a sign. -/
def numeralIn? (base : Nat) (text : List Char) : Option Nat :=
  numeral? base (fun c => do
    let n ← hexValue? c
    if n < base then some n else none) text

/-- A sign and digits with a leading zero, which make no number, as it would be unclear in which
base they are meant. -/
def zeroPadded (text : List Char) : Bool :=
  let digits := match text with
    | '+' :: rest => rest
    | '-' :: rest => rest
    | text => text
  2 ≤ digits.length && digits.head? == some '0' && digits.all fun c => (digitValue? c).isSome

/-- The natural number below `2 ^ 64` that a text stands for: decimal without leading zeros, or in
base 16, 8 or 2 behind `0x`, `0o` or `0b`. A plus sign may precede it. -/
def natural? (text : List Char) : Option Nat :=
  let unsigned := dropLead ['+'] text
  let inBase (lead : List Char) (base : Nat) : Option Nat := do
    let n ← numeralIn? base (← afterLead? lead unsigned)
    if n < UInt64.size then some n else none
  (inBase ['0', 'x'] 16 <|> inBase ['0', 'o'] 8 <|> inBase ['0', 'b'] 2) <|>
    if zeroPadded text then none else inBase [] 10

/-- The truth value that a text stands for, which has three spellings for each value and no others.
-/
def flag? (text : String) : Option Bool :=
  if text ∈ ["true", "True", "TRUE"] then some true
  else if text ∈ ["false", "False", "FALSE"] then some false
  else none

/-- Whether a node is an absent one, perhaps with properties. -/
def isAbsent : Node → Bool
  | .scalar .plain _ text => text.isEmpty
  | _ => false

namespace Following

/-- The text of a scalar, in whatever style it is written. A number that stands where a text is
expected is its own text. -/
def text (node : Node) : Following String := do
  match ← follow node with
  | .scalar _ _ text => pure text
  | _ => refuse

/-- The natural number that a scalar stands for. -/
def natural (node : Node) : Following Nat := do
  match ← follow node with
  | .scalar style tag text =>
    if mayBe integerTag style tag then ofOption (natural? text.toList) else refuse
  | _ => refuse

/-- The truth value that a scalar stands for. -/
def flag (node : Node) : Following Bool := do
  match ← follow node with
  | .scalar style tag text => if mayBe boolTag style tag then ofOption (flag? text) else refuse
  | _ => refuse

/-- The items of a sequence. A value that was left out is the empty one. -/
def items (node : Node) : Following (List Node) := do
  match ← follow node with
  | .sequence items => pure items
  | node => if isAbsent node then pure [] else refuse

/-- The fields of a mapping whose keys are scalars. A value that was left out is a record without
fields; a sequence is none, since its items have no names. -/
def fields (node : Node) : Following (List (String × Node)) := do
  match ← follow node with
  | .mapping pairs => pairs.mapM fun pair => return (← text pair.1, pair.2)
  | node => if isAbsent node then pure [] else refuse

end Following

instance : Format Following Node where
  refuse := Following.refuse
  text := Following.text
  natural := Following.natural
  flag := Following.flag
  items := Following.items
  fields _ := Following.fields

/-- How often the aliases of a document may be followed. It grows with the document, so that only
those are refused in which aliases refer to aliases many times over. -/
def Document.followLimit (document : Document) : Nat := document.size * 100

/-- The value of a document whose root is read by `read`. -/
def Document.decode? {α : Type} (read : Node → Following α) (document : Document) : Option α :=
  (read document.root document.anchored document.followLimit).map Prod.fst

end ControlPlane.Yaml
