import ControlPlane.Proofs.Json.Grammar
import ControlPlane.Proofs.Text.Digits
import Mathlib.Data.List.DropRight
import Mathlib.Data.List.TakeWhile
import Mathlib.Data.Option.Basic

/-!
# Reading what is spelled

Every text that the grammar allows is read as the value that it spells. In particular the text of a
value that is made of texts, integers, truth values, lists and records is read back as that value,
whatever its texts contain.

A reader looks one character beyond a number, so the statement about values is about what follows
them, too: in a document that is nothing, white space, a comma or a closing bracket. White space
behind a value belongs to the text that spells it, but is left to whoever reads on.

## Main definitions

* `Delimited`: what may stand behind a value
* `Phrase.Reads`: a phrase is read off the front of a text

## Main results

* `Spelled.reads`: what is spelled is read
* `ofText?_spelled`: whole texts
* `ofText?_toText`: the texts that are written
-/

namespace ControlPlane.Json

/-! ### White space -/

@[simp] theorem skipSpace_cons {c : Char} (text : List Char) (h : isSpace c = false) :
    skipSpace (c :: text) = c :: text := by
  simp [skipSpace, h]

theorem skipSpace_append {spaces : List Char} (h : Spaces spaces) (text : List Char) :
    skipSpace (spaces ++ text) = skipSpace text :=
  List.dropWhile_append_of_pos h

theorem skipSpace_eq_nil {spaces : List Char} (h : Spaces spaces) : skipSpace spaces = [] :=
  List.dropWhile_eq_nil_iff.mpr h

theorem skipSpace_skipSpace (text : List Char) : skipSpace (skipSpace text) = skipSpace text :=
  List.dropWhile_idempotent isSpace text

theorem Spaces.append {spaces others : List Char} (h : Spaces spaces) (h' : Spaces others) :
    Spaces (spaces ++ others) :=
  fun c hc => (List.mem_append.mp hc).elim (h c) (h' c)

/-- The characters that may stand behind a value. None of them can belong to a number, so a number
ends where it seems to. -/
def delimiters : List Char := [' ', '\n', '\t', '\r', ',', ']', '\x7d']

/-- A value ends before this text. -/
def Delimited (rest : List Char) : Prop := ∀ c, rest.head? = some c → c ∈ delimiters

theorem delimited_nil : Delimited [] := nofun

theorem delimited_cons {c : Char} (h : c ∈ delimiters) (rest : List Char) :
    Delimited (c :: rest) := by
  intro d hd
  obtain rfl := Option.some.inj hd
  exact h

theorem mem_delimiters_of_isSpace {c : Char} (h : isSpace c = true) : c ∈ delimiters := by
  simp only [isSpace, Bool.or_eq_true, beq_iff_eq] at h
  rcases h with ((rfl | rfl) | rfl) | rfl <;> decide

theorem Delimited.spaces {spaces rest : List Char} (h : Delimited rest) (hspaces : Spaces spaces) :
    Delimited (spaces ++ rest) := by
  cases spaces with
  | nil => exact h
  | cons c spaces =>
    exact delimited_cons (mem_delimiters_of_isSpace (hspaces c (List.mem_cons_self ..))) _

/-! ### Strings -/

theorem shortEscape?_of_mem : ∀ p ∈ shortEscapes, shortEscape? p.1 = some p.2 ∧ p.1 ≠ 'u' := by
  decide

theorem pieceOfUnit_toNat {c : Char} (h : c.toNat < 0x20) : pieceOfUnit c.toNat = .char c := by
  have hlow : ¬ 0xD800 ≤ c.toNat := by omega
  simp [pieceOfUnit, hlow]

theorem readPieces_short {e c : Char} (hshort : shortEscape? e = some c) (hu : e ≠ 'u')
    (text : List Char) :
    readPieces ('\x5c' :: e :: text) =
      (readPieces text).map fun (pieces, rest) => (.char c :: pieces, rest) := by
  rw [readPieces.eq_def]
  simp only [hu, if_false, hshort]
  cases readPieces text <;> simp

theorem readPieces_unit {h₁ h₂ h₃ h₄ : Char} {unit : Nat}
    (hunit : numeral? 16 hexValue? [h₁, h₂, h₃, h₄] = some unit) (text : List Char) :
    readPieces ('\x5c' :: 'u' :: h₁ :: h₂ :: h₃ :: h₄ :: text) =
      (readPieces text).map fun (pieces, rest) => (pieceOfUnit unit :: pieces, rest) := by
  rw [readPieces.eq_def]
  simp only [hunit]
  cases readPieces text <;> simp

/-- One part is read, in whichever form it stands. -/
theorem Piece.Spelled.readPieces {piece : Piece} {chars : List Char} (h : piece.Spelled chars)
    (text : List Char) :
    readPieces (chars ++ text) =
      (readPieces text).map fun (pieces, rest) => (piece :: pieces, rest) := by
  cases h with
  | slash => exact readPieces_short (by decide) (by decide) text
  | unit hunit => exact readPieces_unit hunit text
  | escaped h =>
    cases h with
    | short h =>
      obtain ⟨hshort, hu⟩ := shortEscape?_of_mem _ h
      exact readPieces_short hshort hu text
    | unit h =>
      rw [← pieceOfUnit_toNat h]
      exact readPieces_unit (numeral?_unitDigits _ h) text
    | itself hcontrol hquote hslash =>
      rw [List.singleton_append, readPieces.eq_def]
      simp only [hquote, hslash, Nat.not_lt.mpr hcontrol, if_false]
      cases Json.readPieces text <;> rfl

/-- The parts up to the closing quote are read. -/
theorem PiecesSpelled.readPieces {pieces : List Piece} {text : List Char}
    (h : PiecesSpelled pieces text) (rest : List Char) :
    readPieces (text ++ '\x22' :: rest) = some (pieces, rest) := by
  induction h with
  | nil => simp [readPieces.eq_def]
  | cons hpiece _ ih =>
    rw [List.append_assoc, hpiece.readPieces, ih]
    rfl

/-- **A string is read** from behind its opening quote. -/
theorem Literal.Spelled.readLiteral {s : Literal} {text : List Char} (h : s.Spelled text) :
    ∃ body, text = '\x22' :: body ∧ ∀ rest, readLiteral (body ++ rest) = some (s, rest) := by
  obtain ⟨hpieces⟩ := h
  refine ⟨_, rfl, fun rest => ?_⟩
  rw [List.append_assoc, List.singleton_append, Json.readLiteral, hpieces.readPieces]
  rfl

/-! ### Numbers -/

/-- Digits are read up to the first character that is none. -/
theorem takeWhile_digits {digits rest : List Char} (hdigits : ∀ c ∈ digits, isDigit c = true)
    (hrest : ∀ c, rest.head? = some c → isDigit c = false) :
    (digits ++ rest).takeWhile isDigit = digits ∧ (digits ++ rest).dropWhile isDigit = rest := by
  rw [List.takeWhile_append_of_pos hdigits, List.dropWhile_append_of_pos hdigits]
  cases rest with
  | nil => simp
  | cons c rest => simp [hrest c rfl]

theorem Delimited.head {rest : List Char} (h : Delimited rest) {c : Char}
    (hc : rest.head? = some c) :
    isDigit c = false ∧ c ≠ '.' ∧ c ≠ 'e' ∧ c ≠ 'E' := by
  have hall : delimiters.all (fun c => decide (isDigit c = false ∧ c ≠ '.' ∧ c ≠ 'e' ∧ c ≠ 'E')) =
      true := by decide
  exact of_decide_eq_true (List.all_eq_true.mp hall c (h c hc))

theorem Digits.exists_cons {digits : List Char} (h : Digits digits) :
    ∃ c others, digits = c :: others ∧ isDigit c = true := by
  obtain ⟨c, others, rfl⟩ := List.exists_cons_of_ne_nil h.1
  exact ⟨c, others, rfl, h.2 c (List.mem_cons_self ..)⟩

theorem Digits.takeWhile {digits rest : List Char} (h : Digits digits) (hrest : Delimited rest) :
    (digits ++ rest).takeWhile isDigit = digits ∧ (digits ++ rest).dropWhile isDigit = rest :=
  takeWhile_digits h.2 fun _ hc => (hrest.head hc).1

/-- Behind the digits and the fraction of a number. -/
theorem Exponent.head {exponent rest : List Char} (h : Exponent exponent) (hrest : Delimited rest)
    {c : Char} (hc : (exponent ++ rest).head? = some c) : isDigit c = false ∧ c ≠ '.' := by
  cases h with
  | none => exact ⟨(hrest.head hc).1, (hrest.head hc).2.1⟩
  | power he _ _ =>
    obtain rfl := Option.some.inj hc
    rcases he with rfl | rfl <;> decide

theorem Fraction.head {fraction more : List Char} (h : Fraction fraction)
    (hmore : ∀ c, more.head? = some c → isDigit c = false ∧ c ≠ '.') {c : Char}
    (hc : (fraction ++ more).head? = some c) : isDigit c = false := by
  cases h with
  | none => exact (hmore c hc).1
  | point _ =>
    obtain rfl := Option.some.inj hc
    decide

theorem Fraction.readFraction {fraction more : List Char} (h : Fraction fraction)
    (hmore : ∀ c, more.head? = some c → isDigit c = false ∧ c ≠ '.') :
    readFraction (fraction ++ more) = some (fraction, more) := by
  cases h with
  | none =>
    rw [List.nil_append, readFraction.eq_2]
    rintro text rfl
    exact (hmore '.' rfl).2 rfl
  | point hdigits =>
    obtain ⟨htake, hdrop⟩ := takeWhile_digits hdigits.2 fun c hc => (hmore c hc).1
    rw [List.cons_append, Json.readFraction, htake, hdrop, if_neg (by simp [hdigits.1])]

theorem Exponent.readExponent {exponent rest : List Char} (h : Exponent exponent)
    (hrest : Delimited rest) : readExponent (exponent ++ rest) = some (exponent, rest) := by
  cases h with
  | none =>
    cases rest with
    | nil => rfl
    | cons c rest =>
      obtain ⟨-, -, he, hE⟩ := hrest.head (c := c) rfl
      simp [Json.readExponent, he, hE]
  | @power e sign digits he hsign hdigits =>
    obtain ⟨htake, hdrop⟩ := hdigits.takeWhile hrest
    have hletter : (e = 'e' || e = 'E') = true := by simpa using he
    have hempty : digits.isEmpty = false := by simp [hdigits.1]
    simp only [List.mem_cons, List.not_mem_nil, or_false] at hsign
    rcases hsign with rfl | rfl | rfl
    · obtain ⟨c, others, rfl, hdigit⟩ := hdigits.exists_cons
      have hplain : (c = '+' || c = '-') = false := by
        simp only [Bool.or_eq_false_iff, decide_eq_false_iff_not]
        constructor <;> rintro rfl <;> revert hdigit <;> decide
      simp only [List.cons_append, List.nil_append] at htake hdrop ⊢
      simp [Json.readExponent, hletter, hplain, htake, hdrop]
    · simp [Json.readExponent, hletter, htake, hdrop, hempty]
    · simp [Json.readExponent, hletter, htake, hdrop, hempty]

/-- A number is read from behind its sign. -/
theorem readUnsigned_spelled (negative : Bool) (n : Nat) {fraction exponent rest : List Char}
    (hfraction : Fraction fraction) (hexponent : Exponent exponent) (hrest : Delimited rest) :
    readUnsigned negative (Nat.toDigits 10 n ++ (fraction ++ (exponent ++ rest))) =
      some (if fraction.isEmpty && exponent.isEmpty && !(negative && n == 0) then
          .integer (if negative then -n else n)
        else .other (String.ofList ((if negative then ['-'] else []) ++ Nat.toDigits 10 n ++
          fraction ++ exponent)), rest) := by
  have hdigits : ∀ c ∈ Nat.toDigits 10 n, isDigit c = true :=
    fun c hc => digitValue?_of_mem_toDigits hc
  obtain ⟨htake, hdrop⟩ := takeWhile_digits hdigits fun c hc =>
    hfraction.head (fun c hc => hexponent.head hrest hc) hc
  have hvalue : numeral? 10 digitValue? (Nat.toDigits 10 n) = some n :=
    numeral?_toDigits digitValue?_digitChar n
  have hlead : (!(Nat.toDigits 10 n).isEmpty &&
      ((Nat.toDigits 10 n).head? != some '0' || (Nat.toDigits 10 n).length == 1)) = true := by
    have hne : Nat.toDigits 10 n ≠ [] := Nat.toDigits_ne_nil
    rcases toDigits_zero_or_head? n with ⟨-, hdigits⟩ | hhead
    · rw [hdigits]
      decide
    · simp [hne, hhead]
  rw [readUnsigned, htake, hdrop, show guard _ = some () from if_pos hlead,
    hfraction.readFraction fun c hc => hexponent.head hrest hc]
  simp only [Option.bind_eq_bind, Option.bind_some, hexponent.readExponent hrest, hvalue]
  split <;> rfl

/-- The digits of a number begin with a digit. -/
theorem digits_toDigits (n : Nat) : Digits (Nat.toDigits 10 n) :=
  ⟨Nat.toDigits_ne_nil, fun _ hc => digitValue?_of_mem_toDigits hc⟩

theorem readNumeral_of_digit {c : Char} (hc : isDigit c = true) (text : List Char) :
    readNumeral (c :: text) = readUnsigned false (c :: text) := by
  rw [readNumeral.eq_2]
  rintro others heq
  obtain rfl := (List.cons.inj heq).1
  revert hc
  decide

/-- A number begins with a sign or a digit. -/
theorem Numeral.Spelled.begins {n : Numeral} {text : List Char} (h : n.Spelled text) :
    ∃ c others, text = c :: others ∧ (c = '-' ∨ isDigit c = true) := by
  cases h with
  | integer n =>
    cases n with
    | ofNat n =>
      obtain ⟨c, others, hdigits, hc⟩ := (digits_toDigits n).exists_cons
      exact ⟨c, others, hdigits, .inr hc⟩
    | negSucc n => exact ⟨'-', _, rfl, .inl rfl⟩
  | other negative n _ _ _ =>
    cases negative with
    | true => exact ⟨'-', _, rfl, .inl rfl⟩
    | false =>
      obtain ⟨c, others, hdigits, hc⟩ := (digits_toDigits n).exists_cons
      exact ⟨c, _, by rw [hdigits]; rfl, .inr hc⟩

/-- Digits that nothing stands before are a number without a sign. -/
theorem readNumeral_toDigits (n : Nat) (rest : List Char) :
    readNumeral (Nat.toDigits 10 n ++ rest) = readUnsigned false (Nat.toDigits 10 n ++ rest) := by
  obtain ⟨c, others, hdigits, hc⟩ := (digits_toDigits n).exists_cons
  rw [hdigits]
  exact readNumeral_of_digit hc _

/-- **A number is read** up to its end, which is where something follows that cannot belong to a
number. -/
theorem Numeral.Spelled.readNumeral {n : Numeral} {text rest : List Char} (h : n.Spelled text)
    (hrest : Delimited rest) : readNumeral (text ++ rest) = some (n, rest) := by
  cases h with
  | integer n =>
    cases n with
    | ofNat n =>
      have hread := readUnsigned_spelled false n .none .none hrest
      rw [Numeral.print, readNumeral_toDigits]
      exact hread
    | negSucc n =>
      have hread := readUnsigned_spelled true (n + 1) .none .none hrest
      rw [Numeral.print, List.cons_append, Json.readNumeral]
      exact hread
  | @other fraction exponent negative n hfraction hexponent hother =>
    have hread := readUnsigned_spelled negative n hfraction hexponent hrest
    rw [if_neg (by simpa [or_iff_not_imp_left] using hother)] at hread
    cases negative with
    | true =>
      simpa [Json.readNumeral] using hread
    | false =>
      simpa [readNumeral_toDigits] using hread

/-! ### Values -/

/-- Whether a phrase is read off the front of every text that it may stand in. -/
def Phrase.Reads : Phrase → List Char → Prop
  | .value j, text => ∀ bound rest, 2 * text.length ≤ bound → Delimited rest →
    ∃ after, Spaces after ∧ readValue bound (text ++ rest) = some (j, after ++ rest)
  | .items l, text => ∀ bound rest, 2 * text.length + 1 ≤ bound →
    readItems bound (text ++ ']' :: rest) = some (l, rest)
  | .members l, text => ∀ bound rest, 2 * text.length + 1 ≤ bound →
    readMembers bound (text ++ '\x7d' :: rest) = some (l, rest)

theorem readValue_skipSpace (bound : Nat) (text : List Char) :
    readValue bound (skipSpace text) = readValue bound text := by
  cases bound with
  | zero => rfl
  | succ bound => rw [readValue, readValue, skipSpace_skipSpace]

theorem readItems_skipSpace (bound : Nat) (text : List Char) :
    readItems bound (skipSpace text) = readItems bound text := by
  cases bound with
  | zero => rfl
  | succ bound => rw [readItems, readItems, readValue_skipSpace]

theorem readMembers_skipSpace (bound : Nat) (text : List Char) :
    readMembers bound (skipSpace text) = readMembers bound text := by
  cases bound with
  | zero => rfl
  | succ bound => rw [readMembers, readMembers, skipSpace_skipSpace]

theorem not_space_of_digit {c : Char} (h : isDigit c = true) :
    isSpace c = false ∧ c ≠ ']' ∧ c ≠ '\x7d' ∧ c ≠ '\x22' ∧ c ≠ '[' ∧ c ≠ '\x7b' := by
  refine ⟨?_, ?_, ?_, ?_, ?_, ?_⟩
  · rw [Bool.eq_false_iff]
    intro hspace
    simp only [isSpace, Bool.or_eq_true, beq_iff_eq] at hspace
    rcases hspace with ((rfl | rfl) | rfl) | rfl <;> revert h <;> decide
  all_goals
    rintro rfl
    revert h
    decide

/-- A phrase begins, behind white space, with a character that closes no bracket. -/
theorem Spelled.begins {phrase : Phrase} {text : List Char} (h : Spelled phrase text) :
    ∃ before c others, Spaces before ∧ text = before ++ c :: others ∧ isSpace c = false ∧
      c ≠ ']' ∧ c ≠ '\x7d' := by
  induction h with
  | null | yes | no | noItems _ | array _ _ | noMembers _ | object _ _ =>
    exact ⟨[], _, _, nofun, rfl, by decide⟩
  | number hn =>
    obtain ⟨c, others, rfl, rfl | hc⟩ := hn.begins
    · exact ⟨[], _, _, nofun, rfl, by decide⟩
    · obtain ⟨hspace, hbracket, hbrace, -⟩ := not_space_of_digit hc
      exact ⟨[], _, _, nofun, rfl, hspace, hbracket, hbrace⟩
  | string hs =>
    obtain ⟨body, rfl, -⟩ := hs.readLiteral
    exact ⟨[], _, _, nofun, rfl, by decide⟩
  | @spaced _ _ _ after hbefore _ _ ih =>
    obtain ⟨spaces, c, others, hspaces, rfl, hc⟩ := ih
    exact ⟨_, c, others ++ after, hbefore.append hspaces, by simp, hc⟩
  | item _ ih => exact ih
  | @items _ _ _ more _ _ ih _ =>
    obtain ⟨spaces, c, others, hspaces, rfl, hc⟩ := ih
    exact ⟨spaces, c, others ++ ',' :: more, hspaces, by simp, hc⟩
  | member hbefore hname _ _ _ | members hbefore hname _ _ _ _ _ =>
    obtain ⟨body, rfl, -⟩ := hname.readLiteral
    exact ⟨_, '\x22', _, hbefore, rfl, by decide⟩

/-! ### Values, one case a phrase -/

section

variable {j : Json} {before text after others rest : List Char} {bound : Nat}

theorem reads_word {word : List Char} {w : Json}
    (h : ∀ bound rest, readValue (bound + 1) (word ++ rest) = some (w, rest)) (hne : word ≠ []) :
    (Phrase.value w).Reads word := by
  intro bound rest hbound _
  have hpos := List.length_pos_iff.mpr hne
  obtain ⟨bound, rfl⟩ : ∃ k, bound = k + 1 := ⟨bound - 1, by omega⟩
  exact ⟨[], nofun, h bound rest⟩

theorem reads_number {n : Numeral} (h : n.Spelled text) :
    (Phrase.value (.number n)).Reads text := by
  intro bound rest hbound hrest
  have hread := h.readNumeral hrest
  obtain ⟨c, others, rfl, hc⟩ := h.begins
  obtain ⟨bound, rfl⟩ : ∃ k, bound = k + 1 := ⟨bound - 1, by simp at hbound; omega⟩
  have hchars : isSpace c = false ∧ c ≠ ']' ∧ c ≠ '\x7d' ∧ c ≠ '\x22' ∧ c ≠ '[' ∧ c ≠ '\x7b' := by
    rcases hc with rfl | hc
    · decide
    · exact not_space_of_digit hc
  obtain ⟨hspace, -, -, hquote, hbracket, hbrace⟩ := hchars
  have hnumber : (c = '-' || isDigit c) = true := by simpa using hc
  refine ⟨[], nofun, ?_⟩
  rw [List.cons_append] at hread ⊢
  rw [readValue, skipSpace_cons _ hspace]
  simp only [hquote, hbracket, hbrace, if_false, hnumber, if_true, hread, Option.map_some,
    List.nil_append]

theorem reads_string {s : Literal} (h : s.Spelled text) :
    (Phrase.value (.string s)).Reads text := by
  obtain ⟨body, rfl, hread⟩ := h.readLiteral
  refine reads_word (fun bound rest => ?_) (List.cons_ne_nil _ _)
  rw [List.cons_append, readValue, skipSpace_cons _ (by decide)]
  simp only [if_true, hread, Option.map_some]

theorem reads_spaced (hbefore : Spaces before) (hafter : Spaces after)
    (h : (Phrase.value j).Reads text) : (Phrase.value j).Reads (before ++ (text ++ after)) := by
  intro bound rest hbound hrest
  simp only [List.length_append] at hbound
  obtain ⟨left, hleft, hread⟩ := h bound (after ++ rest) (by omega) (hrest.spaces hafter)
  refine ⟨left ++ after, hleft.append hafter, ?_⟩
  rw [List.append_assoc, List.append_assoc, ← readValue_skipSpace, skipSpace_append hbefore,
    readValue_skipSpace, hread, List.append_assoc]

theorem reads_noItems {spaces : List Char} (h : Spaces spaces) :
    (Phrase.value (.array [])).Reads ('[' :: (spaces ++ [']'])) := by
  refine reads_word (fun bound rest => ?_) (List.cons_ne_nil _ _)
  rw [List.cons_append, List.append_assoc, readValue, skipSpace_cons _ (by decide)]
  simp [skipSpace_append h, isSpace]

/-- What stands in brackets, unless they are empty. -/
theorem readValue_bracket {c : Char} (hskip : skipSpace text = c :: others) (hc : c ≠ ']') :
    readValue (bound + 1) ('[' :: text) =
      (readItems bound text).map fun (items, rest) => (array items, rest) := by
  rw [← readItems_skipSpace, hskip]
  simp [readValue, isSpace.eq_1 '[', hskip, hc]

/-- What stands in braces, unless they are empty. -/
theorem readValue_brace {c : Char} (hskip : skipSpace text = c :: others) (hc : c ≠ '\x7d') :
    readValue (bound + 1) ('\x7b' :: text) =
      (readMembers bound text).map fun (members, rest) => (object members, rest) := by
  rw [← readMembers_skipSpace, hskip]
  simp [readValue, isSpace.eq_1 '\x7b', hskip, hc]

/-- Where the text of a phrase begins, behind white space. -/
theorem Spelled.skipSpace_append {phrase : Phrase} (h : Spelled phrase text) (rest : List Char) :
    ∃ c others, skipSpace (text ++ rest) = c :: others ∧ c ≠ ']' ∧ c ≠ '\x7d' := by
  obtain ⟨spaces, c, others, hspaces, rfl, hspace, hbracket, hbrace⟩ := h.begins
  refine ⟨c, others ++ rest, ?_, hbracket, hbrace⟩
  rw [List.append_assoc, Json.skipSpace_append hspaces, List.cons_append, skipSpace_cons _ hspace]

theorem reads_array {items : List Json} (hspelled : Spelled (.items items) text)
    (h : (Phrase.items items).Reads text) :
    (Phrase.value (.array items)).Reads ('[' :: (text ++ [']'])) := by
  intro bound rest hbound _
  rw [List.length_cons, List.length_append, List.length_singleton] at hbound
  obtain ⟨bound, rfl⟩ : ∃ k, bound = k + 1 := ⟨bound - 1, by omega⟩
  obtain ⟨c, others, hskip, hbracket, -⟩ := hspelled.skipSpace_append (']' :: rest)
  refine ⟨[], nofun, ?_⟩
  rw [List.cons_append, List.append_assoc, List.singleton_append, readValue_bracket hskip hbracket,
    h bound rest (by omega)]
  rfl

theorem reads_noMembers {spaces : List Char} (h : Spaces spaces) :
    (Phrase.value (.object [])).Reads ('\x7b' :: (spaces ++ ['\x7d'])) := by
  refine reads_word (fun bound rest => ?_) (List.cons_ne_nil _ _)
  rw [List.cons_append, List.append_assoc, readValue, skipSpace_cons _ (by decide)]
  simp [skipSpace_append h, isSpace]

theorem reads_object {members : List (Literal × Json)} (hspelled : Spelled (.members members) text)
    (h : (Phrase.members members).Reads text) :
    (Phrase.value (.object members)).Reads ('\x7b' :: (text ++ ['\x7d'])) := by
  intro bound rest hbound _
  rw [List.length_cons, List.length_append, List.length_singleton] at hbound
  obtain ⟨bound, rfl⟩ : ∃ k, bound = k + 1 := ⟨bound - 1, by omega⟩
  obtain ⟨c, others, hskip, -, hbrace⟩ := hspelled.skipSpace_append ('\x7d' :: rest)
  refine ⟨[], nofun, ?_⟩
  rw [List.cons_append, List.append_assoc, List.singleton_append, readValue_brace hskip hbrace,
    h bound rest (by omega)]
  rfl

theorem reads_item (h : (Phrase.value j).Reads text) : (Phrase.items [j]).Reads text := by
  intro bound rest hbound
  obtain ⟨bound, rfl⟩ : ∃ k, bound = k + 1 := ⟨bound - 1, by omega⟩
  obtain ⟨after, hafter, hread⟩ := h bound (']' :: rest) (by omega) (delimited_cons (by decide) _)
  rw [readItems, hread]
  simp [skipSpace_append hafter, isSpace]

theorem reads_items {items : List Json} (h : (Phrase.value j).Reads text)
    (hothers : (Phrase.items items).Reads others) :
    (Phrase.items (j :: items)).Reads (text ++ ',' :: others) := by
  intro bound rest hbound
  rw [List.length_append, List.length_cons] at hbound
  obtain ⟨bound, rfl⟩ : ∃ k, bound = k + 1 := ⟨bound - 1, by omega⟩
  obtain ⟨after, hafter, hread⟩ := h bound (',' :: (others ++ ']' :: rest)) (by omega)
    (delimited_cons (by decide) _)
  rw [List.append_assoc, List.cons_append, readItems, hread]
  simp [skipSpace_append hafter, isSpace, hothers bound rest (by omega)]

theorem reads_member {name : Literal} {quoted spaces : List Char} (hbefore : Spaces before)
    (hname : name.Spelled quoted) (hspaces : Spaces spaces) (h : (Phrase.value j).Reads text) :
    (Phrase.members [(name, j)]).Reads (before ++ (quoted ++ (spaces ++ ':' :: text))) := by
  intro bound rest hbound
  simp only [List.length_append, List.length_cons] at hbound
  obtain ⟨bound, rfl⟩ : ∃ k, bound = k + 1 := ⟨bound - 1, by omega⟩
  obtain ⟨after, hafter, hread⟩ := h bound ('\x7d' :: rest) (by omega)
    (delimited_cons (by decide) _)
  obtain ⟨body, rfl, hliteral⟩ := hname.readLiteral
  simp only [List.append_assoc, List.cons_append]
  rw [readMembers, skipSpace_append hbefore, skipSpace_cons _ (by decide)]
  simp [hliteral, skipSpace_append hspaces, isSpace, hread, skipSpace_append hafter]

theorem reads_members {name : Literal} {members : List (Literal × Json)}
    {quoted spaces : List Char} (hbefore : Spaces before) (hname : name.Spelled quoted)
    (hspaces : Spaces spaces) (h : (Phrase.value j).Reads text)
    (hothers : (Phrase.members members).Reads others) :
    (Phrase.members ((name, j) :: members)).Reads
      (before ++ (quoted ++ (spaces ++ ':' :: (text ++ ',' :: others)))) := by
  intro bound rest hbound
  simp only [List.length_append, List.length_cons] at hbound
  obtain ⟨bound, rfl⟩ : ∃ k, bound = k + 1 := ⟨bound - 1, by omega⟩
  obtain ⟨after, hafter, hread⟩ := h bound (',' :: (others ++ '\x7d' :: rest)) (by omega)
    (delimited_cons (by decide) _)
  obtain ⟨body, rfl, hliteral⟩ := hname.readLiteral
  simp only [List.append_assoc, List.cons_append]
  rw [readMembers, skipSpace_append hbefore, skipSpace_cons _ (by decide)]
  simp [hliteral, skipSpace_append hspaces, isSpace, hread, skipSpace_append hafter,
    hothers bound rest (by omega)]

end

/-! ### Documents -/

/-- **What is spelled is read.** The induction is on the derivation; the bound on the depth and the
text behind the phrase are arbitrary, as both change from a phrase to its parts. -/
theorem Spelled.reads {phrase : Phrase} {text : List Char} (h : Spelled phrase text) :
    phrase.Reads text := by
  induction h with
  | null | yes | no =>
    refine reads_word (fun bound rest => ?_) (List.cons_ne_nil _ _)
    simp [readValue, readWord, afterLead?, skipSpace, isSpace, isDigit, digitValue?]
  | number hn => exact reads_number hn
  | string hs => exact reads_string hs
  | noItems hspaces => exact reads_noItems hspaces
  | array hitems ih => exact reads_array hitems ih
  | noMembers hspaces => exact reads_noMembers hspaces
  | object hmembers ih => exact reads_object hmembers ih
  | spaced hbefore _ hafter ih => exact reads_spaced hbefore hafter ih
  | item _ ih => exact reads_item ih
  | items _ _ ih ihothers => exact reads_items ih ihothers
  | member hbefore hname hspaces _ ih => exact reads_member hbefore hname hspaces ih
  | members hbefore hname hspaces _ _ ih ihothers =>
    exact reads_members hbefore hname hspaces ih ihothers

/-- **A text is read as the value that it spells.** -/
theorem ofText?_spelled {j : Json} {text : String} (h : Spelled (.value j) text.toList) :
    ofText? text = some j := by
  obtain ⟨after, hafter, hread⟩ := h.reads (2 * text.toList.length + 2) [] (by omega) delimited_nil
  rw [List.append_nil, List.append_nil] at hread
  rw [ofText?, parse, hread, Option.bind_eq_bind, Option.bind_some]
  dsimp only
  rw [skipSpace_eq_nil hafter]
  rfl

/-- **The text of a value is read as that value.** -/
@[simp] theorem ofText?_toText {ok named : String → Prop} {j : Json} (h : Plain ok named j) :
    ofText? j.toText = some j := by
  refine ofText?_spelled ?_
  rw [toText, String.toList_ofList]
  exact h.spelled

end ControlPlane.Json
