import ControlPlane.Json.Format

/-!
# Placement policies

The policies by which a machine is chosen for a task, and their words. A word in a document is
exact; a word on a command line may be accepted in any case, which concerns the letters of ASCII
only.
-/

namespace ControlPlane

/-- How a machine is chosen. -/
inductive Policy where
  /-- Any machine, all equally likely, whether or not it has room. -/
  | random
  /-- The machines in turn, whether or not they have room. -/
  | roundRobin
  /-- The first machine with room and without a conflict of host ports. -/
  | firstFit
deriving DecidableEq, Inhabited

namespace Policy

/-- The policies with their words, as documents and command lines have them. -/
def words : List (String × Policy) :=
  [("random", random), ("round-robin", roundRobin), ("first-fit", firstFit)]

/-- The word of a policy, by which it is written and found again among `words`. -/
def word : Policy → String
  | random => "random"
  | roundRobin => "round-robin"
  | firstFit => "first-fit"

/-- A letter of ASCII in lower case; any other character is itself. Words of policies have no other
letters, so nothing of the case of other alphabets matters. -/
def lowerLetter (c : Char) : Char :=
  if 'A' ≤ c && c ≤ 'Z' then Char.ofNat (c.toNat + 0x20) else c

/-- The policy that a word on a command line means. Whether capital letters are accepted is up to
the command line. -/
def ofFlag? (ignoreCase : Bool) (word : String) : Option Policy :=
  let word := if ignoreCase then String.ofList (word.toList.map lowerLetter) else word
  words.lookup word

/-- Reads a policy, whose word has to be exact in a document. -/
def read (j : Json) : Option Policy := j.word? words

end Policy

end ControlPlane
