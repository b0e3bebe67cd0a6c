import ControlPlane.Proofs.Json.Reading
import ControlPlane.Proofs.Yaml.Source
import ControlPlane.Yaml.Token.Scalar

/-!
# JSON strings and words as YAML scalars

A JSON string is read as a scalar in double quotes with the same text. The escapes of both languages
agree as far as JSON uses them, and what YAML does to spaces in quoted scalars only matters around
line ends, of which there are none.

Inside brackets, numbers and truth values are plain scalars that end at the next comma or bracket.

## Main results

* `readDoubleQuoted_print`
* `readPlain_word`
-/

namespace ControlPlane.Yaml

open Json

/-- Behind the first column nothing separates documents. -/
@[simp] theorem atMarker_of_column {mark c : Char} {column : Nat} (source : List Glyph)
    (h : 0 < column) : atMarker mark (⟨c, 0, column⟩ :: source) = false := by
  have hcolumn : column ≠ 0 := Nat.ne_of_gt h
  cases source with
  | nil => rfl
  | cons g₂ source =>
    cases source with
    | nil => rfl
    | cons g₃ source => simp [atMarker, hcolumn]

/-- A line that separates documents begins with its mark. -/
theorem atMarker_of_ne {mark : Char} {g : Glyph} (source : List Glyph) (h : g.char ≠ mark) :
    atMarker mark (g :: source) = false := by
  cases source with
  | nil => rfl
  | cons g₂ source =>
    cases source with
    | nil => rfl
    | cons g₃ source => simp [atMarker, h]

@[simp] theorem atSeparator_of_column {c : Char} {column : Nat} (source : List Glyph)
    (h : 0 < column) : atSeparator (⟨c, 0, column⟩ :: source) = false := by
  simp [atSeparator, h]

/-! ### Strings -/

theorem plainEscape?_of_mem : ∀ p ∈ shortEscapes, plainEscape? p.1 = some p.2 ∧
    isBreak p.1 = false ∧ p.1 ≠ 'x' ∧ p.1 ≠ 'u' ∧ p.1 ≠ 'U' := by
  decide

theorem codeEscape?_control {c : Char} (h : c.toNat < 0x20) {glyphs : List Glyph}
    (hglyphs : glyphs.map Glyph.char = unitDigits c.toNat) : codeEscape? glyphs = some c := by
  have hlow : c.toNat < 0xD800 := by omega
  have hhigh : c.toNat ≤ 0x10FFFF := by omega
  simp [codeEscape?, hglyphs, numeral?_unitDigits _ h, guard, hlow, hhigh]

/-- Spaces since the last word, without a line end. -/
abbrev spaces (white : List Char) : Gap := ⟨white, none, []⟩

section

variable {column : Nat} (hcolumn : 0 < column) (done white : List Char) (source : List Glyph)

include hcolumn

theorem readDoubleQuoted_quote :
    readDoubleQuoted done (spaces white) (⟨'\x22', 0, column⟩ :: source) =
      some (done.reverse ++ white.reverse, source) := by
  rw [readDoubleQuoted.eq_def]
  simp [hcolumn, Glyph.isWhite, isWhite, Glyph.isBreak, isBreak, lineSeparator, paragraphSeparator,
    Gap.text]

theorem readDoubleQuoted_space :
    readDoubleQuoted done (spaces white) (⟨' ', 0, column⟩ :: source) =
      readDoubleQuoted done (spaces (' ' :: white)) source := by
  rw [readDoubleQuoted.eq_def]
  simp [hcolumn, Glyph.isWhite, isWhite, Gap.addWhite, Gap.breaks]

theorem readDoubleQuoted_char {c : Char} (hwhite : isWhite c = false) (hbreak : isBreak c = false)
    (hquote : c ≠ '\x22') (hslash : c ≠ '\x5c') :
    readDoubleQuoted done (spaces white) (⟨c, 0, column⟩ :: source) =
      readDoubleQuoted (c :: (white ++ done)) (spaces []) source := by
  rw [readDoubleQuoted.eq_def]
  simp [hcolumn, Glyph.isWhite, hwhite, Glyph.isBreak, hbreak, hquote, hslash, Gap.text, Gap.none]

theorem readDoubleQuoted_short {e c : Char} (h : (e, c) ∈ shortEscapes) :
    readDoubleQuoted done (spaces white) (⟨'\x5c', 0, column⟩ :: ⟨e, 0, column + 1⟩ :: source) =
      readDoubleQuoted (c :: (white ++ done)) (spaces []) source := by
  obtain ⟨hescape, hbreak, hx, hu, hU⟩ := plainEscape?_of_mem _ h
  rw [readDoubleQuoted.eq_def]
  simp [hcolumn, Glyph.isWhite, isWhite, Glyph.isBreak, isBreak.eq_1 '\x5c', lineSeparator,
    paragraphSeparator, hbreak, hx, hu, hU, hescape, Gap.text, Gap.none]

theorem readDoubleQuoted_unit {c : Char} (h : c.toNat < 0x20) :
    readDoubleQuoted done (spaces white)
        (lineGlyphs column ('\x5c' :: 'u' :: unitDigits c.toNat) ++ source) =
      readDoubleQuoted (c :: (white ++ done)) (spaces []) source := by
  have hcode : codeEscape? (lineGlyphs (column + 1 + 1) (unitDigits c.toNat)) = some c :=
    codeEscape?_control h rfl
  simp only [unitDigits, lineGlyphs] at hcode
  simp only [unitDigits, lineGlyphs, List.cons_append, List.nil_append]
  rw [readDoubleQuoted.eq_def]
  simp [hcolumn, Glyph.isWhite, isWhite, Glyph.isBreak, isBreak, lineSeparator,
    paragraphSeparator, hcode, Gap.text, Gap.none]

end

/-- **A JSON string is a scalar in double quotes** with the same text. The spaces before the next
word are kept apart until it begins. -/
theorem readDoubleQuoted_print {chars : List Char}
    (hsteady : ∀ c ∈ chars, 0x20 ≤ c.toNat → Inline c)
    (done white rest : List Char) (column : Nat) (hcolumn : 0 < column) :
    readDoubleQuoted done (spaces white)
        (lineGlyphs column (chars.flatMap escapeChar ++ '\x22' :: rest)) =
      some (done.reverse ++ white.reverse ++ chars,
        lineGlyphs (column + (chars.flatMap escapeChar).length + 1) rest) := by
  induction chars generalizing done white column with
  | nil =>
    rw [List.flatMap_nil, List.nil_append, lineGlyphs, readDoubleQuoted_quote hcolumn,
      List.append_nil]
    rfl
  | cons c chars ih =>
    have hc := hsteady c (List.mem_cons_self ..)
    have hrest := ih fun x hx => hsteady x (List.mem_cons_of_mem c hx)
    have hescaped := escaped_escapeChar c
    rw [List.flatMap_cons, List.append_assoc, lineGlyphs_append]
    generalize escapeChar c = escape at hescaped ⊢
    cases hescaped with
    | short hmem =>
      simp only [lineGlyphs, List.cons_append, List.nil_append]
      rw [readDoubleQuoted_short hcolumn _ _ _ hmem, hrest _ _ _ (by omega)]
      simp [Nat.add_assoc, Nat.add_comm, Nat.add_left_comm]
      congr 1
      omega
    | unit hlow =>
      rw [readDoubleQuoted_unit hcolumn _ _ _ hlow, hrest _ _ _ (by omega)]
      simp [Nat.add_assoc, Nat.add_comm, Nat.add_left_comm]
      congr 1
      omega
    | itself hvisible hquote hslash =>
      simp only [lineGlyphs, List.cons_append, List.nil_append]
      by_cases hspace : c = ' '
      · subst hspace
        rw [readDoubleQuoted_space hcolumn, hrest _ _ _ (by simp)]
        simp [Nat.add_assoc, Nat.add_comm, Nat.add_left_comm]
      · have htab : c ≠ '\t' := by
          rintro rfl
          exact absurd hvisible (by decide)
        have hwhite : isWhite c = false := by simp [isWhite, hspace, htab]
        rw [readDoubleQuoted_char hcolumn _ _ _ hwhite (hc hvisible).notBreak hquote hslash,
          hrest _ _ _ (by simp)]
        simp [Nat.add_assoc, Nat.add_comm, Nat.add_left_comm]

/-! ### Words -/

/-- White space, line ends, and the characters that mean something to YAML inside brackets or at the
beginning of a scalar, but for the hyphen. -/
def indicators : List Char :=
  [' ', '\t', '\n', lineSeparator, paragraphSeparator, '#', ':', ',', '[', ']', '\x7b', '\x7d', '?',
    '&', '*', '!', '|', '>', '\x27', '\x22', '%', '@', '\x60']

/-- A text without them, which is read as one plain scalar. -/
def Wordlike (text : List Char) : Prop := ∀ c ∈ text, c ∉ indicators

instance (text : List Char) : Decidable (Wordlike text) :=
  List.decidableBAll (fun c => c ∉ indicators) text

theorem wordlike_digits (n : Nat) : Wordlike (Nat.toDigits 10 n) := by
  intro c hc hindicator
  have hdigit := Char.isDigit_iff_toNat.mp (Nat.isDigit_of_mem_toDigits (by decide) (by decide) hc)
  change 48 ≤ c.toNat ∧ c.toNat ≤ 57 at hdigit
  have hnone : indicators.all (fun x => ¬ (48 ≤ x.toNat ∧ x.toNat ≤ 57)) = true := by decide
  exact of_decide_eq_true (List.all_eq_true.mp hnone c hindicator) hdigit

theorem wordlike_integer (n : Int) : Wordlike (Numeral.integer n).print := by
  cases n with
  | ofNat n => exact wordlike_digits n
  | negSucc n =>
    rintro c (_ | ⟨_, hc⟩)
    · decide
    · exact wordlike_digits (n + 1) c hc

theorem wordlike_bool (b : Bool) : Wordlike (print (.bool b)) := by
  cases b <;> decide

/-- **A word inside brackets** is a plain scalar, up to the next comma or bracket. -/
theorem readPlain_word {word rest : List Char} (hword : Wordlike word) (hrest : Follows rest)
    (indent : Int) (done : List Char) (inWord : Bool) (column : Nat) (hcolumn : 0 < column) :
    readPlain true indent done .none inWord (lineGlyphs column (word ++ rest)) =
      some ⟨done.reverse ++ word, false, lineGlyphs (column + word.length) rest⟩ := by
  induction word generalizing done inWord column with
  | nil =>
    rw [List.nil_append]
    cases rest with
    | nil => simp [lineGlyphs, readPlain, Gap.breaks, Gap.none]
    | cons c rest =>
      have hplain : isWhite c = false ∧ isBreak c = false ∧ c ≠ '#' ∧ c ≠ ':' ∧
          isFlowIndicator c = true := by
        rcases hrest with rfl | rfl | rfl <;> decide
      obtain ⟨hwhite, hbreak, hhash, hcolon, hend⟩ := hplain
      rw [lineGlyphs, readPlain.eq_def]
      simp [hcolumn, Glyph.isWhite, hwhite, Glyph.isBreak, hbreak, hhash, hcolon, hend, Gap.breaks,
        Gap.none, lineGlyphs]
  | cons c word ih =>
    have hc : c ∉ indicators := hword c (List.mem_cons_self ..)
    have hrest' := ih (fun x hx => hword x (List.mem_cons_of_mem c hx)) (c :: done) true
      (column + 1) (by omega)
    simp only [indicators, List.mem_cons, List.not_mem_nil, or_false, not_or] at hc
    have hstep : readPlain true indent done .none inWord (lineGlyphs column (c :: word ++ rest)) =
        readPlain true indent (c :: done) .none true (lineGlyphs (column + 1) (word ++ rest)) := by
      rw [List.cons_append, lineGlyphs, readPlain.eq_def]
      simp [hcolumn, Glyph.isWhite, isWhite, Glyph.isBreak, isBreak, isFlowIndicator, hc, Gap.none,
        Gap.text]
    rw [hstep, hrest']
    simp [Nat.add_assoc, Nat.add_comm 1]

end ControlPlane.Yaml
