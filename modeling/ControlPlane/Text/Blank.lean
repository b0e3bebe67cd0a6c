/-!
# Blank characters

The characters that Unicode calls white space, and the two things done with them: trimming a
text at both ends and cutting it into words.

Whether a document is empty, whether a host name is given, and where a command line is cut all
depend on this one table, so it is kept apart from the rules that use it. Zero-width space and
the byte order mark are not in it.
-/

namespace ControlPlane

/-- The property White_Space of the Unicode standard. -/
def isBlank (c : Char) : Bool :=
  (0x09 ≤ c.toNat && c.toNat ≤ 0x0D) || c.toNat == 0x20 || c.toNat == 0x85 || c.toNat == 0xA0 ||
  c.toNat == 0x1680 || (0x2000 ≤ c.toNat && c.toNat ≤ 0x200A) || c.toNat == 0x2028 ||
  c.toNat == 0x2029 || c.toNat == 0x202F || c.toNat == 0x205F || c.toNat == 0x3000

/-- The text without the blanks at its two ends. Those in the middle stay. -/
def trimBlank (s : String) : String :=
  String.ofList (((s.toList.dropWhile isBlank).reverse.dropWhile isBlank).reverse)

/-- Whether the text holds nothing but blanks, as the empty text does. -/
def blankText (s : String) : Bool :=
  s.toList.all isBlank

/-- The runs of characters that satisfy `p`, in order; `word` is the run being read, reversed. -/
def runsOf (p : Char → Bool) (word : List Char) : List Char → List (List Char)
  | [] => if word.isEmpty then [] else [word.reverse]
  | c :: rest =>
    if p c then runsOf p (c :: word) rest
    else if word.isEmpty then runsOf p [] rest
    else word.reverse :: runsOf p [] rest

/-- The words of a text: its longest pieces without blanks, none of them empty. -/
def words (s : String) : List String :=
  (runsOf (fun c => !isBlank c) [] s.toList).map String.ofList

end ControlPlane
