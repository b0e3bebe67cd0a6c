import ControlPlane.Json.Reader
import ControlPlane.Proofs.Json.Plain

/-!
# Texts that spell a value

The grammar of JSON, as a relation between values and the texts that spell them. One value has many
texts: white space may stand around every value, a character of a string may stand for itself or be
escaped in several ways, and the hexadecimal digits of an escape may have either case. Nothing is
said here about reading.

A string is made of parts, each of them a character or an escaped code unit. What they come to is
left to `Literal.ofPieces`, which joins the halves of surrogate pairs.

Values, lists of items and lists of members are spelled in terms of each other. They are phrases of
one relation, so that what holds of all of them is shown by one induction.

## Main definitions

* `Piece.Spelled`, `Literal.Spelled`: strings
* `Numeral.Spelled`: numbers
* `Spelled`: phrases

## Main results

* `Plain.spelled`: what is written is spelled
-/

namespace ControlPlane.Json

/-! ### Strings -/

/-- A part of a string and how it may stand there. -/
inductive Piece.Spelled : Piece → List Char → Prop
  | escaped {c : Char} {text : List Char} : Escaped c text → Spelled (.char c) text
  | slash : Spelled (.char '/') ['\x5c', '/']
  | unit {h₁ h₂ h₃ h₄ : Char} {unit : Nat} : numeral? 16 hexValue? [h₁, h₂, h₃, h₄] = some unit →
      Spelled (pieceOfUnit unit) ['\x5c', 'u', h₁, h₂, h₃, h₄]

/-- The parts of a string, one after the other. -/
inductive PiecesSpelled : List Piece → List Char → Prop
  | nil : PiecesSpelled [] []
  | cons {piece : Piece} {pieces : List Piece} {text others : List Char} : piece.Spelled text →
      PiecesSpelled pieces others → PiecesSpelled (piece :: pieces) (text ++ others)

/-- A string with its quotes, and any spelling of its parts between them. -/
inductive Literal.Spelled : Literal → List Char → Prop
  | quoted {pieces : List Piece} {text : List Char} : PiecesSpelled pieces text →
      Spelled (.ofPieces pieces) ('\x22' :: (text ++ ['\x22']))

/-! ### Numbers -/

/-- At least one digit, and nothing else. -/
def Digits (text : List Char) : Prop := text ≠ [] ∧ ∀ c ∈ text, isDigit c = true

/-- The fraction of a number, if it has one. -/
inductive Fraction : List Char → Prop
  | none : Fraction []
  | point {digits : List Char} : Digits digits → Fraction ('.' :: digits)

/-- The exponent of a number, if it has one. -/
inductive Exponent : List Char → Prop
  | none : Exponent []
  | power {e : Char} {sign digits : List Char} : e = 'e' ∨ e = 'E' →
      sign ∈ [[], ['+'], ['-']] → Digits digits → Exponent (e :: (sign ++ digits))

/-- A number: an integer, or a number with a fraction or an exponent, or negative zero. -/
inductive Numeral.Spelled : Numeral → List Char → Prop
  | integer (n : Int) : Spelled (.integer n) (Numeral.integer n).print
  | other {fraction exponent : List Char} (negative : Bool) (n : Nat) : Fraction fraction →
      Exponent exponent → fraction ≠ [] ∨ exponent ≠ [] ∨ (negative = true ∧ n = 0) →
      Spelled (.other (String.ofList
          ((if negative then ['-'] else []) ++ Nat.toDigits 10 n ++ fraction ++ exponent)))
        ((if negative then ['-'] else []) ++ Nat.toDigits 10 n ++ fraction ++ exponent)

/-! ### Phrases -/

/-- White space, or nothing at all. -/
def Spaces (text : List Char) : Prop := ∀ c ∈ text, isSpace c = true

theorem spaces_nil : Spaces [] := nofun

/-- What the grammar speaks of: values, and what stands between the brackets of those that are not
empty. -/
inductive Phrase where
  | value (j : Json)
  | items (l : List Json)
  | members (l : List (Literal × Json))

/-- A phrase and a text for it. There is one case for each rule of the grammar, and white space may
stand wherever one of them ends. -/
inductive Spelled : Phrase → List Char → Prop
  | null : Spelled (.value .null) ['n', 'u', 'l', 'l']
  | yes : Spelled (.value (.bool true)) ['t', 'r', 'u', 'e']
  | no : Spelled (.value (.bool false)) ['f', 'a', 'l', 's', 'e']
  | number {n : Numeral} {text : List Char} : n.Spelled text → Spelled (.value (.number n)) text
  | string {s : Literal} {text : List Char} : s.Spelled text → Spelled (.value (.string s)) text
  | noItems {spaces : List Char} : Spaces spaces →
      Spelled (.value (.array [])) ('[' :: (spaces ++ [']']))
  | array {items : List Json} {text : List Char} : Spelled (.items items) text →
      Spelled (.value (.array items)) ('[' :: (text ++ [']']))
  | noMembers {spaces : List Char} : Spaces spaces →
      Spelled (.value (.object [])) ('\x7b' :: (spaces ++ ['\x7d']))
  | object {members : List (Literal × Json)} {text : List Char} :
      Spelled (.members members) text →
      Spelled (.value (.object members)) ('\x7b' :: (text ++ ['\x7d']))
  | spaced {j : Json} {before text after : List Char} : Spaces before → Spelled (.value j) text →
      Spaces after → Spelled (.value j) (before ++ (text ++ after))
  | item {j : Json} {text : List Char} : Spelled (.value j) text → Spelled (.items [j]) text
  | items {j : Json} {items : List Json} {text others : List Char} : Spelled (.value j) text →
      Spelled (.items items) others → Spelled (.items (j :: items)) (text ++ ',' :: others)
  | member {name : Literal} {j : Json} {before quoted after text : List Char} : Spaces before →
      name.Spelled quoted → Spaces after → Spelled (.value j) text →
      Spelled (.members [(name, j)]) (before ++ (quoted ++ (after ++ ':' :: text)))
  | members {name : Literal} {j : Json} {members : List (Literal × Json)}
      {before quoted after text others : List Char} : Spaces before →
      name.Spelled quoted → Spaces after → Spelled (.value j) text →
      Spelled (.members members) others →
      Spelled (.members ((name, j) :: members))
        (before ++ (quoted ++ (after ++ ':' :: (text ++ ',' :: others))))

/-! ### What is written -/

theorem piecesSpelled_escaped (chars : List Char) :
    PiecesSpelled (chars.map .char) (chars.flatMap escapeChar) := by
  induction chars with
  | nil => exact .nil
  | cons c chars ih => exact .cons (.escaped (escaped_escapeChar c)) ih

theorem joinHalves_chars (chars : List Char) :
    joinHalves (chars.map Piece.char) = chars.map Piece.char := by
  induction chars with
  | nil => rfl
  | cons c chars ih => simp [joinHalves, ih]

theorem charsOf?_chars (chars : List Char) : charsOf? (chars.map Piece.char) = some chars := by
  induction chars with
  | nil => rfl
  | cons c chars ih => simp [charsOf?, ih]

theorem Literal.ofPieces_chars (chars : List Char) :
    Literal.ofPieces (chars.map .char) = .text (String.ofList chars) := by
  simp [Literal.ofPieces, joinHalves_chars, charsOf?_chars]

theorem Literal.spelled_text (s : String) : (Literal.text s).Spelled (Literal.text s).print := by
  have hspelled := Spelled.quoted (piecesSpelled_escaped s.toList)
  rwa [Literal.ofPieces_chars, String.ofList_toList] at hspelled

theorem spelled_bool (b : Bool) : Spelled (.value (.bool b)) (Json.bool b).print := by
  cases b
  · exact .no
  · exact .yes

theorem spelled_ofString (s : String) : Spelled (.value (.ofString s)) (Json.ofString s).print :=
  .string (Literal.spelled_text s)

theorem spelled_ofNat (n : Nat) : Spelled (.value (.ofNat n)) (Json.ofNat n).print :=
  .number (.integer n)

theorem spelled_printItems {items : List Json} (hne : items ≠ [])
    (hitems : ∀ j ∈ items, Spelled (.value j) j.print) :
    Spelled (.items items) (printItems items) := by
  induction items with
  | nil => exact absurd rfl hne
  | cons item items ih =>
    have hitem := hitems item (List.mem_cons_self ..)
    cases items with
    | nil =>
      rw [printItems]
      exact .item hitem
    | cons item' items =>
      rw [printItems_cons_cons]
      exact .items hitem
        (ih (List.cons_ne_nil _ _) fun j hj => hitems j (List.mem_cons_of_mem item hj))

theorem spelled_array {items : List Json} (hitems : ∀ j ∈ items, Spelled (.value j) j.print) :
    Spelled (.value (.array items)) (Json.array items).print := by
  rw [print]
  by_cases hne : items = []
  · subst hne
    exact .noItems spaces_nil
  · exact .array (spelled_printItems hne hitems)

theorem spelled_printMembers {fields : List (String × Json)} (hne : fields ≠ [])
    (hfields : ∀ f ∈ fields, Spelled (.value f.2) f.2.print) :
    Spelled (.members (membersOf fields)) (printMembers (membersOf fields)) := by
  induction fields with
  | nil => exact absurd rfl hne
  | cons field fields ih =>
    obtain ⟨name, value⟩ := field
    have hvalue := hfields (name, value) (List.mem_cons_self ..)
    have hname := Literal.spelled_text name
    cases fields with
    | nil =>
      have hmember := Spelled.member spaces_nil hname spaces_nil hvalue
      simpa [membersOf, printMembers] using hmember
    | cons field' fields =>
      have hothers := ih (List.cons_ne_nil _ _) fun f hf => hfields f (List.mem_cons_of_mem _ hf)
      have hmembers := Spelled.members spaces_nil hname spaces_nil hvalue hothers
      simpa [membersOf, printMembers] using hmembers

theorem spelled_record {fields : List (String × Json)}
    (hfields : ∀ f ∈ fields, Spelled (.value f.2) f.2.print) :
    Spelled (.value (.record fields)) (Json.record fields).print := by
  rw [record, print]
  by_cases hne : fields = []
  · subst hne
    exact .noMembers spaces_nil
  · exact .object (spelled_printMembers hne hfields)

/-- **What is written is spelled:** the writer keeps to the grammar, so whatever reads the grammar
reads what was written. -/
theorem Plain.spelled {ok named : String → Prop} {j : Json} (h : Plain ok named j) :
    Spelled (.value j) j.print := by
  induction h with
  | bool b => exact spelled_bool b
  | integer n => exact .number (.integer n)
  | text _ => exact spelled_ofString _
  | array _ ih => exact spelled_array ih
  | record _ _ ih => exact spelled_record ih

end ControlPlane.Json
