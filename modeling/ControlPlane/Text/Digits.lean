/-!
# Digits

Numbers as texts: lower-case hexadecimal without leading zeros, and decimal numbers padded to a
fixed width, whose order as texts is their order as numbers.
-/

namespace ControlPlane

/-- The digit of a value below sixteen, in lower case. -/
def hexDigit (n : Nat) : Char :=
  if n < 10 then Char.ofNat (0x30 + n) else Char.ofNat (0x61 + (n - 10))

/-- The value of a hexadecimal digit of either case. What is written here is in lower case; what is
read may be in both. -/
def hexValue? (c : Char) : Option Nat :=
  if '0' ≤ c && c ≤ '9' then some (c.toNat - 0x30)
  else if 'a' ≤ c && c ≤ 'f' then some (c.toNat - 0x61 + 10)
  else if 'A' ≤ c && c ≤ 'F' then some (c.toNat - 0x41 + 10)
  else none

/-- The value of a decimal digit. Only those of ASCII count as digits. -/
def digitValue? (c : Char) : Option Nat :=
  if '0' ≤ c && c ≤ '9' then some (c.toNat - 0x30) else none

/-- Hexadecimal digits in front of `digits`; `room` bounds their number. The digits come from the
end of the number to its front, so each is put before those that are there. -/
def hexFrom (digits : List Char) : (room : Nat) → Nat → List Char
  | 0, _ => digits
  | room + 1, n =>
    if n < 16 then hexDigit n :: digits else hexFrom (hexDigit (n % 16) :: digits) room (n / 16)

/-- The hexadecimal text of a number of at most sixteen digits, without leading zeros, so that
numbers are equal if their texts are. -/
def hexText (n : Nat) : List Char :=
  hexFrom [] 16 n

/-- The value of a nonempty list of digits in a base, each read by `digit?`. One that is no digit
makes the whole text none. -/
def numeral? (base : Nat) (digit? : Char → Option Nat) : List Char → Option Nat
  | [] => none
  | digits => digits.foldl (fun n c => do return (← n) * base + (← digit? c)) (some 0)

/-- The decimal text of a number, with zeros in front up to `width` digits. As long as numbers have
no more digits than that, their texts are in their order. -/
def paddedText (width n : Nat) : List Char :=
  let digits := Nat.toDigits 10 n
  List.replicate (width - digits.length) '0' ++ digits

end ControlPlane
