/-!
# Document formats

The records of this library are written as JSON and read from JSON or YAML. `Format m ν` is what
such a reader needs of the values `ν` of a format: their texts, numbers, flags, items and fields.
`m` is the effect of reading; a value of the wrong form is refused.

The rules for records are the same in every format: a field may be missing where its type has a
default, a field given twice is refused, and other fields are passed over unread.
-/

namespace ControlPlane

/-- The views of the values of a document format. Readers of records are written once against them,
and so JSON and YAML have the same rules for fields. -/
class Format (m : Type → Type) (ν : outParam Type) where
  /-- Gives the document up. There is no other way to go on from a value of the wrong form. -/
  refuse {α : Type} : m α
  /-- The text that a value is. -/
  text : ν → m String
  /-- The natural number that a value is, of any size. -/
  natural : ν → m Nat
  /-- The truth value that a value is. -/
  flag : ν → m Bool
  /-- The items of a list. -/
  items : ν → m (List ν)
  /-- The fields of a record with their names, in order and with repetitions. `names` are the names
  of the record in order, for a format that may leave them out. -/
  fields (names : List String) : ν → m (List (String × ν))

namespace Format

variable {m : Type → Type} {ν α : Type} [Monad m] [Format m ν]

/-- The only value among the fields of a name; none if there is no such field. Two fields of one
name are refused, as it cannot be told which of them is meant. -/
def only (name : String) (fields : List (String × ν)) : m (Option ν) :=
  match fields.filter (·.1 == name) with
  | [] => pure none
  | [field] => pure (some field.2)
  | _ => refuse

/-- The field of a name, which may be left out for `default`. One that is there has to be readable;
the default does not stand in for it. -/
def field (fields : List (String × ν)) (name : String) (read : ν → m α) (default : α) : m α := do
  match ← only name fields with
  | some v => read v
  | none => pure default

/-- The field of a name, which has to be there. -/
def required (fields : List (String × ν)) (name : String) (read : ν → m α) : m α := do
  match ← only name fields with
  | some v => read v
  | none => refuse

/-- A list of values of one kind. One item that cannot be read makes the list unreadable. -/
def list (read : ν → m α) (v : ν) : m (List α) := do
  (← items v).mapM read

/-- A number of sixteen bits. A larger one is refused and not cut off. -/
def word16 (v : ν) : m UInt16 := do
  let n ← natural v
  if n < UInt16.size then pure (UInt16.ofNat n) else refuse

/-- A number of sixty-four bits. A larger one is refused and not cut off. -/
def word64 (v : ν) : m UInt64 := do
  let n ← natural v
  if n < UInt64.size then pure (UInt64.ofNat n) else refuse

end Format

end ControlPlane
