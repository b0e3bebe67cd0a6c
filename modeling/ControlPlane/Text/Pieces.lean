/-!
# Cutting and joining texts

Separators, leading parts and replacements on lists of characters. Everything goes from left to
right and pieces never overlap. A match of several characters is passed over with a counter of the
characters still to be skipped, so that every function here recurs on its text.
-/

namespace ControlPlane

/-- What follows `lead` in a text that begins with it. -/
def afterLead? : (lead text : List Char) → Option (List Char)
  | [], text => some text
  | _ :: _, [] => none
  | p :: lead, c :: text => if p = c then afterLead? lead text else none

theorem afterLead?_append (lead text : List Char) : afterLead? lead (lead ++ text) = some text := by
  induction lead with
  | nil => rfl
  | cons c lead ih => simp [afterLead?, ih]

theorem afterLead?_eq_some_iff {lead text rest : List Char} :
    afterLead? lead text = some rest ↔ text = lead ++ rest := by
  constructor
  · intro h
    fun_induction afterLead? lead text with
    | case1 text => simpa using h
    | case2 => simp at h
    | case3 lead c text ih => simp [ih h]
    | case4 => simp at h
  · rintro rfl
    exact afterLead?_append lead rest

/-- The text without `lead` at its beginning, or the text itself where it begins otherwise. It is
dropped once, also if the rest begins with it again. -/
def dropLead (lead text : List Char) : List Char :=
  (afterLead? lead text).getD text

/-- Replaces every occurrence of the nonempty `old` by `new` after passing over `skip` characters,
which belong to an occurrence already replaced. -/
def replaceFrom (old new : List Char) : (skip : Nat) → List Char → List Char
  | _, [] => []
  | skip + 1, _ :: text => replaceFrom old new skip text
  | 0, c :: text =>
    if old.isPrefixOf (c :: text) then new ++ replaceFrom old new (old.length - 1) text
    else c :: replaceFrom old new 0 text

/-- The text with every occurrence of the nonempty `old` replaced by `new`. An occurrence that
overlaps an earlier one does not count, and what is put in is not searched again. -/
def replaceAll (old new text : List Char) : List Char :=
  replaceFrom old new 0 text

/-- The pieces of a text between the occurrences of a nonempty separator. `piece` is the piece being
read, reversed; `skip` characters belong to a separator already found. -/
def splitFrom (separator : List Char) : (piece : List Char) → (skip : Nat) → List Char →
    List (List Char)
  | piece, _, [] => [piece.reverse]
  | piece, skip + 1, _ :: text => splitFrom separator piece skip text
  | piece, 0, c :: text =>
    if separator.isPrefixOf (c :: text) then
      piece.reverse :: splitFrom separator [] (separator.length - 1) text
    else splitFrom separator (c :: piece) 0 text

/-- The pieces of a text between the occurrences of a separator; there is always at least one, which
may be empty. -/
def splitText (separator text : List Char) : List (List Char) :=
  splitFrom separator [] 0 text

/-- The text without the characters `c` at its end, however many there are. -/
def trimEnd (c : Char) (text : List Char) : List Char :=
  (text.reverse.dropWhile (· == c)).reverse

/-- The part after the last `c`, or the whole text where there is none. -/
def afterLast (c : Char) (text : List Char) : List Char :=
  (text.reverse.takeWhile (· != c)).reverse

/-- The parts before and after the last `c`; none where there is no such character, so that an empty
part can be told from a missing one. -/
def splitLast? (c : Char) (text : List Char) : Option (List Char × List Char) :=
  match text.reverse.dropWhile (· != c) with
  | [] => none
  | _ :: before => some (before.reverse, afterLast c text)

/-- Whether `part` occurs in the text, at any place. The empty part occurs in every text. -/
def occursIn (part : List Char) : List Char → Bool
  | [] => part.isEmpty
  | c :: text => part.isPrefixOf (c :: text) || occursIn part text

end ControlPlane
