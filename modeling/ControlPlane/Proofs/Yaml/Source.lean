import ControlPlane.Proofs.Json.Plain
import ControlPlane.Yaml.Source

/-!
# JSON texts as YAML sources

The compact JSON text of a value is one line of YAML, unless its texts contain characters that YAML
takes for line ends or does not allow. JSON writes these as they are, while every character below
the space is escaped, so they are all that has to be kept out.

## Main definitions

* `Clean`: a text without such characters
* `Refused`, `EndsLine`: the characters among them that are not allowed, and those that end a line
* `Steady`: a text whose characters are allowed and end no line, as far as JSON leaves them alone
* `lineGlyphs`: the glyphs of a text on the first line

## Main results

* `inline_print`: the text of a steady value
* `glyphs?_of_inline`: its glyphs
-/

namespace ControlPlane.Yaml

open Json

/-- The characters that JSON leaves alone and YAML does not. -/
def disturbs (c : Char) : Bool :=
  (0x7F ≤ c.toNat && c.toNat ≤ 0x9F) || c == lineSeparator || c == paragraphSeparator ||
    c == byteOrderMark || c.toNat == 0xFFFE || c.toNat == 0xFFFF

theorem disturbs_eq_false_iff {c : Char} : disturbs c = false ↔
    ¬ (0x7F ≤ c.toNat ∧ c.toNat ≤ 0x9F) ∧
      c.toNat ∉ [0x2028, 0x2029, 0xFEFF, 0xFFFE, 0xFFFF] := by
  have hchar : ∀ d : Char, (c == d) = false ↔ c.toNat ≠ d.toNat := by
    intro d
    rw [beq_eq_false_iff_ne, ne_eq, ne_eq, Char.toNat_inj]
  simp only [disturbs, Bool.or_eq_false_iff, hchar, ← Bool.decide_and, decide_eq_false_iff_not,
    beq_eq_false_iff_ne, List.mem_cons, List.not_mem_nil, or_false, not_or, and_assoc]
  exact Iff.rfl

/-- A text without them. -/
def Clean (s : String) : Prop := ∀ c ∈ s.toList, disturbs c = false

instance (s : String) : Decidable (Clean s) :=
  List.decidableBAll (fun c => disturbs c = false) s.toList

/-- A character that is allowed and ends no line, before and after line ends are made uniform. -/
structure Inline (c : Char) : Prop where
  visible : 0x20 ≤ c.toNat
  allowed : isAllowed c = true
  notNext : c ≠ nextLine
  notBreak : isBreak c = false

theorem Inline.of_ascii {c : Char} (hlow : 0x20 ≤ c.toNat) (hhigh : c.toNat ≤ 0x7E) : Inline c where
  visible := hlow
  allowed := by simp [isAllowed, hlow, hhigh]
  notNext := by
    rintro rfl
    revert hhigh
    decide
  notBreak := by
    rw [Bool.eq_false_iff]
    intro h
    simp only [isBreak, Bool.or_eq_true, beq_iff_eq] at h
    rcases h with (rfl | rfl) | rfl
    · revert hlow
      decide
    · revert hhigh
      decide
    · revert hhigh
      decide

/-- The characters that JSON leaves alone and YAML does not allow. -/
def Refused (c : Char) : Prop :=
  0x7F ≤ c.toNat ∧ c.toNat ≤ 0x9F ∧ c.toNat ≠ 0x85 ∨ c.toNat = 0xFFFE ∨ c.toNat = 0xFFFF

instance (c : Char) : Decidable (Refused c) := instDecidableOr

/-- The characters that JSON leaves alone and YAML takes for line ends. -/
def EndsLine (c : Char) : Prop := c.toNat ∈ [0x85, 0x2028, 0x2029]

instance (c : Char) : Decidable (EndsLine c) := inferInstanceAs (Decidable (_ ∈ _))

theorem Refused.visible {c : Char} (h : Refused c) : 0x20 ≤ c.toNat := by
  rw [Refused] at h
  omega

/-- Every other visible character is allowed, those outside the basic plane included. -/
theorem isAllowed_eq_false_iff {c : Char} (hvisible : 0x20 ≤ c.toNat) :
    isAllowed c = false ↔ Refused c := by
  have hchar : ∀ d : Char, (c == d) = decide (c.toNat = d.toNat) := by
    intro d
    rw [Bool.eq_iff_iff, beq_iff_eq, decide_eq_true_iff, Char.toNat_inj]
  have hnumbers : '\t'.toNat = 9 ∧ '\n'.toNat = 10 ∧ '\r'.toNat = 13 ∧ nextLine.toNat = 0x85 := by
    decide
  simp only [isAllowed, hchar, hnumbers, ← Bool.decide_and, ← Bool.decide_or,
    decide_eq_false_iff_not, Refused]
  omega

/-- A visible character that is allowed and ends no line. -/
theorem Inline.of_not_refused {c : Char} (hvisible : 0x20 ≤ c.toNat) (hrefused : ¬ Refused c)
    (hline : ¬ EndsLine c) : Inline c where
  visible := hvisible
  allowed := by
    rw [← Bool.not_eq_false, isAllowed_eq_false_iff hvisible]
    exact hrefused
  notNext := by
    rintro rfl
    exact hline (by decide)
  notBreak := by
    rw [Bool.eq_false_iff]
    intro h
    simp only [isBreak, Bool.or_eq_true, beq_iff_eq] at h
    rcases h with (rfl | rfl) | rfl
    · exact absurd hvisible (by decide)
    · exact hline (by decide)
    · exact hline (by decide)

theorem Inline.of_clean {c : Char} (hvisible : 0x20 ≤ c.toNat) (hclean : disturbs c = false) :
    Inline c := by
  obtain ⟨hrange, hnumbers⟩ := disturbs_eq_false_iff.mp hclean
  simp only [List.mem_cons, List.not_mem_nil, or_false, not_or] at hnumbers
  refine .of_not_refused hvisible ?_ ?_
  · rw [Refused]
    omega
  · simp only [EndsLine, List.mem_cons, List.not_mem_nil, or_false]
    omega

/-- A text whose characters are allowed and end no line, but for those that JSON escapes. -/
def Steady (s : String) : Prop := ∀ c ∈ s.toList, 0x20 ≤ c.toNat → Inline c

theorem Clean.steady {s : String} (h : Clean s) : Steady s :=
  fun c hc hvisible => .of_clean hvisible (h c hc)

/-! ### The characters of a JSON text -/

theorem inline_hexDigit : ∀ d < 16, 0x20 ≤ (hexDigit d).toNat ∧ (hexDigit d).toNat ≤ 0x7E := by
  decide

theorem inline_shortEscape : ∀ p ∈ shortEscapes, 0x20 ≤ p.1.toNat ∧ p.1.toNat ≤ 0x7E := by
  decide

theorem inline_of_escaped {c : Char} {chars : List Char} (h : Escaped c chars)
    (hsteady : 0x20 ≤ c.toNat → Inline c) : ∀ x ∈ chars, Inline x := by
  have hslash : Inline '\x5c' := .of_ascii (by decide) (by decide)
  cases h with
  | short hmem =>
    have he := inline_shortEscape _ hmem
    simp [hslash, Inline.of_ascii he.1 he.2]
  | unit hlow =>
    have hu : Inline 'u' := .of_ascii (by decide) (by decide)
    have hdigit : ∀ n, Inline (hexDigit (n % 16)) := fun n =>
      have hd := inline_hexDigit _ (Nat.mod_lt n (by decide))
      .of_ascii hd.1 hd.2
    simp [unitDigits, hslash, hu, hdigit]
  | itself hvisible _ _ =>
    simp [hsteady hvisible]

/-- What YAML does not allow, JSON leaves as it is. -/
theorem mem_literal_of_refused {s : String} {c : Char} (hc : c ∈ s.toList) (hrefused : Refused c) :
    c ∈ (Literal.text s).print := by
  have hitself : c ∈ escapeChar c := by
    have hescaped := escaped_escapeChar c
    generalize escapeChar c = chars at hescaped ⊢
    cases hescaped with
    | short hmem =>
      have hnone : ∀ p ∈ shortEscapes, ¬ Refused p.2 := by decide
      exact absurd hrefused (hnone _ hmem)
    | unit hlow => exact absurd hrefused.visible (Nat.not_le.mpr hlow)
    | itself => exact List.mem_singleton_self c
  rw [Literal.print]
  exact List.mem_cons_of_mem _
    (List.mem_append_left _ (List.mem_flatMap.mpr ⟨c, hc, hitself⟩))

theorem inline_literal {s : String} (h : Steady s) : ∀ c ∈ (Literal.text s).print, Inline c := by
  have hquote : Inline '\x22' := .of_ascii (by decide) (by decide)
  have hchars : ∀ c ∈ s.toList.flatMap escapeChar, Inline c := by
    intro c hc
    obtain ⟨x, hx, hc⟩ := List.mem_flatMap.mp hc
    exact inline_of_escaped (escaped_escapeChar x) (h x hx) c hc
  intro c hc
  simp only [Literal.print, List.mem_cons, List.mem_append, List.not_mem_nil, or_false] at hc
  rcases hc with rfl | hc | rfl
  · exact hquote
  · exact hchars c hc
  · exact hquote

theorem inline_digits (n : Nat) : ∀ c ∈ Nat.toDigits 10 n, Inline c := by
  intro c hc
  have hdigit := Char.isDigit_iff_toNat.mp (Nat.isDigit_of_mem_toDigits (by decide) (by decide) hc)
  change 48 ≤ c.toNat ∧ c.toNat ≤ 57 at hdigit
  exact .of_ascii (by omega) (by omega)

theorem inline_integer (n : Int) : ∀ c ∈ (Numeral.integer n).print, Inline c := by
  cases n with
  | ofNat n => exact inline_digits n
  | negSucc n =>
    have hminus : Inline '-' := .of_ascii (by decide) (by decide)
    simpa [Numeral.print, hminus] using inline_digits (n + 1)

theorem inline_printItems {items : List Json} (h : ∀ j ∈ items, ∀ c ∈ j.print, Inline c) :
    ∀ c ∈ printItems items, Inline c := by
  have hcomma : Inline ',' := .of_ascii (by decide) (by decide)
  induction items with
  | nil => simp [printItems]
  | cons item items ih =>
    have hitem := h item (List.mem_cons_self ..)
    have hrest := ih fun j hj => h j (List.mem_cons_of_mem item hj)
    cases items with
    | nil => simpa [printItems] using hitem
    | cons item' items =>
      intro c hc
      rw [printItems, List.mem_append, List.mem_cons] at hc
      · rcases hc with hc | rfl | hc
        · exact hitem c hc
        · exact hcomma
        · exact hrest c hc
      · simp

theorem inline_printMembers {fields : List (String × Json)} (hnames : ∀ f ∈ fields, Steady f.1)
    (h : ∀ f ∈ fields, ∀ c ∈ f.2.print, Inline c) :
    ∀ c ∈ printMembers (fields.map fun f => (.text f.1, f.2)), Inline c := by
  have hcomma : Inline ',' := .of_ascii (by decide) (by decide)
  have hcolon : Inline ':' := .of_ascii (by decide) (by decide)
  induction fields with
  | nil => simp [printMembers]
  | cons field fields ih =>
    have hname := inline_literal (hnames field (List.mem_cons_self ..))
    have hvalue := h field (List.mem_cons_self ..)
    have hrest := ih (fun f hf => hnames f (List.mem_cons_of_mem field hf)) fun f hf =>
      h f (List.mem_cons_of_mem field hf)
    cases fields with
    | nil =>
      intro c hc
      simp only [List.map_cons, List.map_nil, printMembers, List.mem_append, List.mem_cons] at hc
      rcases hc with hc | rfl | hc
      · exact hname c hc
      · exact hcolon
      · exact hvalue c hc
    | cons field' fields =>
      intro c hc
      rw [List.map_cons, printMembers, List.mem_append, List.mem_cons, List.mem_append,
        List.mem_cons] at hc
      · rcases hc with hc | rfl | hc | rfl | hc
        · exact hname c hc
        · exact hcolon
        · exact hvalue c hc
        · exact hcomma
        · exact hrest c hc
      · simp

/-- **The text of a steady value stands on one line.** -/
theorem inline_print {named : String → Prop} (hnamed : ∀ name, named name → Steady name) {j : Json}
    (h : Plain Steady named j) : ∀ c ∈ j.print, Inline c := by
  have hascii : ∀ text : List Char, text.all (fun c => 0x20 ≤ c.toNat ∧ c.toNat ≤ 0x7E) = true →
      ∀ c ∈ text, Inline c := by
    intro text htext c hc
    have hrange := of_decide_eq_true (List.all_eq_true.mp htext c hc)
    exact .of_ascii hrange.1 hrange.2
  induction h with
  | bool b => cases b <;> exact hascii _ (by decide)
  | integer n => exact inline_integer n
  | text hs => exact inline_literal hs
  | array _ ih =>
    intro c hc
    simp only [print, List.mem_cons, List.mem_append, List.not_mem_nil, or_false] at hc
    rcases hc with rfl | hc | rfl
    · exact .of_ascii (by decide) (by decide)
    · exact inline_printItems ih c hc
    · exact .of_ascii (by decide) (by decide)
  | record hnames _ ih =>
    intro c hc
    simp only [record, print, List.mem_cons, List.mem_append, List.not_mem_nil, or_false] at hc
    rcases hc with rfl | hc | rfl
    · exact .of_ascii (by decide) (by decide)
    · exact inline_printMembers (fun f hf => hnamed _ (hnames f hf)) ih c hc
    · exact .of_ascii (by decide) (by decide)

/-! ### Glyphs -/

/-- The glyphs of a text on the first line, from a column on. -/
def lineGlyphs (column : Nat) : List Char → List Glyph
  | [] => []
  | c :: text => ⟨c, 0, column⟩ :: lineGlyphs (column + 1) text

theorem lineGlyphs_append (column : Nat) (text text' : List Char) :
    lineGlyphs column (text ++ text') =
      lineGlyphs column text ++ lineGlyphs (column + text.length) text' := by
  induction text generalizing column with
  | nil => rfl
  | cons c text ih => simp [lineGlyphs, ih, Nat.add_comm, Nat.add_left_comm]

@[simp] theorem length_lineGlyphs (column : Nat) (text : List Char) :
    (lineGlyphs column text).length = text.length := by
  induction text generalizing column with
  | nil => rfl
  | cons c text ih => simp [lineGlyphs, ih]

theorem glyphsFrom_of_inline {text : List Char} (h : ∀ c ∈ text, Inline c) (column : Nat) :
    glyphsFrom 0 column text = lineGlyphs column text := by
  induction text generalizing column with
  | nil => rfl
  | cons c text ih =>
    have hc := h c (List.mem_cons_self ..)
    have hreturn : c ≠ '\r' := by
      rintro rfl
      exact absurd hc.visible (by decide)
    have hfeed : c ≠ '\n' := by
      rintro rfl
      exact absurd hc.visible (by decide)
    have hbreak := hc.notBreak
    simp only [isBreak, Bool.or_eq_false_iff, beq_eq_false_iff_ne] at hbreak
    rw [glyphsFrom, lineGlyphs, ih fun x hx => h x (List.mem_cons_of_mem c hx)]
    · simp [hreturn, hfeed, hc.notNext, hbreak.1.2, hbreak.2]
    · simp [hreturn]

/-- A text with a character that is not allowed is no source. -/
theorem glyphs?_eq_none {text : List Char} {c : Char} (hc : c ∈ text) (hrefused : Refused c) :
    glyphs? text = none := by
  rw [glyphs?, if_neg]
  intro hall
  have hallowed := List.all_eq_true.mp hall c hc
  rw [(isAllowed_eq_false_iff hrefused.visible).mpr hrefused] at hallowed
  cases hallowed

theorem glyphs?_of_inline {text : List Char} (h : ∀ c ∈ text, Inline c) :
    glyphs? text = some (lineGlyphs 0 text) := by
  rw [glyphs?, if_pos (List.all_eq_true.mpr fun c hc => (h c hc).allowed), glyphsFrom_of_inline h]

end ControlPlane.Yaml
