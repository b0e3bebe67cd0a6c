import ControlPlane.Proofs.Yaml.Scalar
import ControlPlane.Yaml.Token.OfSource
import Mathlib.Tactic.Set

/-!
# The tokens of a JSON text

Read as YAML, the compact JSON text of a value consists of brackets, commas, scalars, and the three
tokens of each name: the mark of its key, the name itself, and the mark of the value. The mark of
the key is the one token that is not where its characters are; it is put in front of the name when
the colon is met.

The reader remembers possible keys and gives them up when they become stale. Inside brackets none of
them has to be a key, so this never matters but for a name, which its colon follows directly.
`Inside` says what is known of the reader there, and forgets the rest.

## Main definitions

* `Inside`: the reader inside brackets, in front of a text
* `Leads`: from each state of one kind the reader gets to one of another
* `tokensOf`: the tokens of a value

## Main results

* `scanned_print`: the tokens of a value, wherever it stands
* `tokens?_print`: the tokens of a text that consists of a list
-/

namespace ControlPlane.Yaml

open Json Layout

/-! ### Steps of the reader -/

/-- The reader gets from one layout to another, and consumes something with every token. -/
inductive Scans : Layout → Layout → Prop
  | refl (l : Layout) : Scans l l
  | step {l l' l'' : Layout} : l.next? = some l' → l'.rest.length < l.rest.length → Scans l' l'' →
      Scans l l''

theorem Scans.trans {l l' l'' : Layout} (h : Scans l l') (h' : Scans l' l'') : Scans l l'' := by
  induction h with
  | refl l => exact h'
  | step hnext hless _ ih => exact .step hnext hless (ih h')

/-- A reader that gets to the end of its source reads all of it. -/
theorem Scans.readAll? {l l' : Layout} (h : Scans l l') (hend : l'.rest = []) {bound : Nat}
    (hbound : l.rest.length ≤ bound) : l.readAll? bound = l'.next? := by
  induction h generalizing bound with
  | refl l => cases bound <;> simp [Layout.readAll?, hend]
  | step hnext hless _ ih =>
    obtain ⟨bound, rfl⟩ : ∃ k, bound = k + 1 := ⟨bound - 1, by omega⟩
    rename_i l _ _ _
    have hne : l.rest.isEmpty = false := by
      rw [List.isEmpty_eq_false_iff]
      intro hnil
      rw [hnil] at hless
      exact absurd hless (Nat.not_lt_zero _)
    simp only [Layout.readAll?, hne, hnext, Option.bind_eq_bind, Option.bind_some]
    exact ih hend (by omega)

/-- From each layout of one kind the reader gets to one of another kind. -/
def Leads (P Q : Layout → Prop) : Prop := ∀ l, P l → ∃ l', Q l' ∧ Scans l l'

theorem Leads.trans {P Q R : Layout → Prop} (h : Leads P Q) (h' : Leads Q R) : Leads P R := by
  intro l hl
  obtain ⟨l', hl', hscans⟩ := h l hl
  obtain ⟨l'', hl'', hscans'⟩ := h' l' hl'
  exact ⟨l'', hl'', hscans.trans hscans'⟩

/-! ### Inside brackets -/

/-- A possible key that need not be one, so that nothing is wrong if no colon follows. -/
def Loose (key : Option PossibleKey) : Prop := key.any PossibleKey.required = false

/-- A layout in front of a text on the first line, outside of all blocks. -/
def line (column : Nat) (text : List Char) (tokens : List Token) (keyAllowed : Bool)
    (key : Option PossibleKey) (keys : List (Option PossibleKey)) : Layout :=
  ⟨lineGlyphs column text, tokens, tokens.length, -1, [], keyAllowed, key, keys⟩

/-- The reader inside `depth` brackets and in front of a text: its tokens so far, and whether a key
may begin. None of the possible keys has to be one. -/
def Inside (depth column : Nat) (text : List Char) (tokens : List Token) (keyAllowed : Bool)
    (l : Layout) : Prop :=
  ∃ key keys, l = line column text tokens keyAllowed key keys ∧ Loose key ∧
    (∀ k ∈ keys, Loose k) ∧ keys.length = depth

theorem loose_none : Loose none := rfl

theorem dropStale?_of_loose {key : Option PossibleKey} (h : Loose key) (g : Glyph) :
    ∃ key', dropStale? g key = some key' ∧ Loose key' := by
  cases key with
  | none => exact ⟨none, rfl, rfl⟩
  | some key =>
    have hrequired : key.required = false := h
    by_cases hstale : isStale key g = true
    · exact ⟨none, by simp [dropStale?, hstale, hrequired], rfl⟩
    · exact ⟨some key, by simp [dropStale?, hstale], h⟩

theorem mapM_dropStale?_of_loose {keys : List (Option PossibleKey)} (h : ∀ k ∈ keys, Loose k)
    (g : Glyph) : ∃ keys', keys.mapM (dropStale? g) = some keys' ∧ (∀ k ∈ keys', Loose k) ∧
      keys'.length = keys.length := by
  induction keys with
  | nil => exact ⟨[], rfl, by simp, rfl⟩
  | cons key keys ih =>
    obtain ⟨key', hkey, hloose⟩ := dropStale?_of_loose (h key (List.mem_cons_self ..)) g
    obtain ⟨keys', hkeys, hloose', hlength⟩ := ih fun k hk => h k (List.mem_cons_of_mem key hk)
    refine ⟨key' :: keys', by simp [List.mapM_cons, hkey, hkeys], ?_, by simp [hlength]⟩
    simpa [hloose] using hloose'

section

variable {column : Nat} {text : List Char} {tokens : List Token} {keyAllowed : Bool}
  {key : Option PossibleKey} {keys : List (Option PossibleKey)}

theorem flow_line (column : Nat) (text : List Char) (tokens : List Token) (keyAllowed : Bool)
    (key : Option PossibleKey) (hkeys : keys ≠ []) :
    (line column text tokens keyAllowed key keys).flow = true := by
  simp [Layout.flow, line, hkeys]

theorem next?_line (text : List Char) (tokens : List Token) (keyAllowed : Bool) {c : Char}
    {key' : Option PossibleKey} {keys' : List (Option PossibleKey)}
    (hc : c ∉ [' ', '\t', '\n', lineSeparator, paragraphSeparator, '#']) (hcolumn : 0 < column)
    (hne : keys ≠ []) (hlength : keys'.length = keys.length)
    (hkey : dropStale? ⟨c, 0, column⟩ key = some key')
    (hkeys : keys.mapM (dropStale? ⟨c, 0, column⟩) = some keys') :
    (line column (c :: text) tokens keyAllowed key keys).next? =
      (line column (c :: text) tokens keyAllowed key' keys').token? ⟨c, 0, column⟩
        (lineGlyphs (column + 1) text) := by
  have hne' : keys' ≠ [] := by
    intro hnil
    rw [hnil] at hlength
    exact hne (List.length_eq_zero_iff.mp hlength.symm)
  simp only [List.mem_cons, List.not_mem_nil, or_false, not_or] at hc
  set l := line column (c :: text) tokens keyAllowed key keys with hl
  have hskip : skipBetween l.flow l.keyAllowed false l.rest =
      (keyAllowed, lineGlyphs column (c :: text)) := by
    rw [hl, flow_line _ _ _ _ _ hne]
    simp [line, lineGlyphs, skipBetween, Glyph.isBreak, isBreak, hc, Nat.ne_of_gt hcolumn]
  have hdrop : l.dropStaleKeys? ⟨c, 0, column⟩ =
      some (line column (c :: text) tokens keyAllowed key' keys') := by
    simp [hl, dropStaleKeys?, line, hkey, hkeys]
  have hclose : (line column (c :: text) tokens keyAllowed key' keys').closeBlocks column =
      line column (c :: text) tokens keyAllowed key' keys' := by
    rw [closeBlocks, flow_line _ _ _ _ _ hne', if_pos rfl]
  simp only [Layout.next?, hskip]
  change (l.dropStaleKeys? ⟨c, 0, column⟩).bind
    (fun l => (l.closeBlocks column).token? ⟨c, 0, column⟩ (lineGlyphs (column + 1) text)) = _
  rw [hdrop, Option.bind_some, hclose]

/-- One token: it is enough to know what it does to every layout inside the brackets. -/
theorem Leads.of_token? {depth : Nat} {Q : Layout → Prop} {c : Char}
    (hc : c ∉ [' ', '\t', '\n', lineSeparator, paragraphSeparator, '#']) (hcolumn : 0 < column)
    (hdepth : 0 < depth)
    (h : ∀ key keys, Loose key → (∀ k ∈ keys, Loose k) → keys.length = depth → ∃ l',
      (line column (c :: text) tokens keyAllowed key keys).token? ⟨c, 0, column⟩
        (lineGlyphs (column + 1) text) = some l' ∧ l'.rest.length ≤ text.length ∧ Q l') :
    Leads (Inside depth column (c :: text) tokens keyAllowed) Q := by
  rintro _ ⟨key, keys, rfl, hkey, hkeys, rfl⟩
  obtain ⟨key', hdrop, hkey'⟩ := dropStale?_of_loose hkey ⟨c, 0, column⟩
  obtain ⟨keys', hdrops, hkeys', hlength⟩ := mapM_dropStale?_of_loose hkeys ⟨c, 0, column⟩
  obtain ⟨l', htoken, hless, hl'⟩ := h key' keys' hkey' hkeys' hlength
  have hnext := next?_line text tokens keyAllowed hc hcolumn
    (List.ne_nil_of_length_pos hdepth) hlength hdrop hdrops
  refine ⟨l', hl', .step (hnext.trans htoken) ?_ (.refl l')⟩
  simp only [line, length_lineGlyphs, List.length_cons]
  omega

/-- A key may begin here, but need not, and nothing is in error if it does not. -/
theorem saveKey?_line (c : Char) (column : Nat) (text : List Char) (tokens : List Token)
    (keyAllowed : Bool) (hkey : Loose key) (hne : keys ≠ []) :
    ∃ key', Loose key' ∧ (line column text tokens keyAllowed key keys).saveKey? ⟨c, 0, column⟩ =
      some (line column text tokens keyAllowed key' keys) ∧
      (keyAllowed = true → key' = some ⟨false, tokens.length, 0, column⟩) := by
  have hany : key.any PossibleKey.required = false := hkey
  cases keyAllowed with
  | false => exact ⟨key, hkey, by simp [saveKey?, line], by simp⟩
  | true =>
    refine ⟨some ⟨false, tokens.length, 0, column⟩, rfl, ?_, fun _ => rfl⟩
    simp [saveKey?, dropKey?, line, hany, Layout.flow, hne]

theorem dropKey?_line (hkey : Loose key) :
    (line column text tokens keyAllowed key keys).dropKey? =
      some (line column text tokens keyAllowed none keys) := by
  have hany : key.any PossibleKey.required = false := hkey
  simp [dropKey?, line, hany]

end

/-! ### Brackets and commas -/

section

variable {depth column : Nat} {text : List Char} {tokens : List Token} {keyAllowed : Bool}

theorem leads_open {c : Char} {token : Token} (hcolumn : 0 < column)
    (hc : c = '[' ∧ token = .flowSequenceStart ∨ c = '\x7b' ∧ token = .flowMappingStart)
    (hdepth : 0 < depth) :
    Leads (Inside depth column (c :: text) tokens keyAllowed)
      (Inside (depth + 1) (column + 1) text (token :: tokens) true) := by
  refine .of_token? (by rcases hc with ⟨rfl, -⟩ | ⟨rfl, -⟩ <;> decide) hcolumn hdepth ?_
  rintro key keys hkey hkeys rfl
  obtain ⟨key', hkey', hsave, -⟩ := saveKey?_line c column (c :: text) tokens keyAllowed hkey
    (List.ne_nil_of_length_pos hdepth)
  refine ⟨line (column + 1) text (token :: tokens) true none (key' :: keys), ?_, by simp [line], ?_⟩
  · have hopen : (line column (c :: text) tokens keyAllowed key keys).token? ⟨c, 0, column⟩
        (lineGlyphs (column + 1) text) =
        (line column (c :: text) tokens keyAllowed key keys).openFlow? ⟨c, 0, column⟩ token
          (lineGlyphs (column + 1) text) := by
      rcases hc with ⟨rfl, rfl⟩ | ⟨rfl, rfl⟩ <;> simp [token?, hcolumn]
    rw [hopen, openFlow?, hsave]
    rfl
  · exact ⟨none, key' :: keys, rfl, loose_none, by simpa [hkey'] using hkeys, rfl⟩

theorem leads_close {c : Char} {token : Token} (hcolumn : 0 < column)
    (hc : c = ']' ∧ token = .flowSequenceEnd ∨ c = '\x7d' ∧ token = .flowMappingEnd) :
    Leads (Inside (depth + 1) column (c :: text) tokens keyAllowed)
      (Inside depth (column + 1) text (token :: tokens) false) := by
  refine .of_token? (by rcases hc with ⟨rfl, -⟩ | ⟨rfl, -⟩ <;> decide) hcolumn
    (Nat.succ_pos depth) ?_
  intro key keys hkey hkeys hlength
  obtain ⟨key', keys, rfl⟩ := List.exists_cons_of_length_eq_add_one hlength
  refine ⟨line (column + 1) text (token :: tokens) false key' keys, ?_, by simp [line], ?_⟩
  · have hclose : (line column (c :: text) tokens keyAllowed key (key' :: keys)).token?
        ⟨c, 0, column⟩ (lineGlyphs (column + 1) text) =
        (line column (c :: text) tokens keyAllowed key (key' :: keys)).closeFlow? token
          (lineGlyphs (column + 1) text) := by
      rcases hc with ⟨rfl, rfl⟩ | ⟨rfl, rfl⟩ <;> simp [token?, hcolumn]
    rw [hclose, closeFlow?, dropKey?_line hkey]
    rfl
  · exact ⟨key', keys, rfl, hkeys key' (List.mem_cons_self ..),
      fun k hk => hkeys k (List.mem_cons_of_mem key' hk), Nat.succ.inj hlength⟩

theorem leads_comma (hcolumn : 0 < column) (hdepth : 0 < depth) :
    Leads (Inside depth column (',' :: text) tokens keyAllowed)
      (Inside depth (column + 1) text (.flowEntry :: tokens) true) := by
  refine .of_token? (by decide) hcolumn hdepth ?_
  rintro key keys hkey hkeys rfl
  refine ⟨line (column + 1) text (.flowEntry :: tokens) true none keys, ?_, by simp [line], ?_⟩
  · have hentry : (line column (',' :: text) tokens keyAllowed key keys).token? ⟨',', 0, column⟩
        (lineGlyphs (column + 1) text) =
        Layout.flowEntry? (line column (',' :: text) tokens keyAllowed key keys)
          (lineGlyphs (column + 1) text) := by
      simp [token?, hcolumn]
    rw [hentry, flowEntry?, dropKey?_line hkey]
    rfl
  · exact ⟨none, keys, rfl, loose_none, hkeys, rfl⟩

end

/-! ### Scalars -/

section

variable {depth column : Nat} {rest : List Char} {tokens : List Token} {keyAllowed : Bool}

/-- A string, which may turn out to be a key where a key may begin. -/
theorem token?_literal (rest : List Char) (tokens : List Token) (keyAllowed : Bool) {s : String}
    (hs : Steady s) {key : Option PossibleKey}
    {keys : List (Option PossibleKey)} (hcolumn : 0 < column) (hkey : Loose key) (hne : keys ≠ []) :
    ∃ key', Loose key' ∧ (keyAllowed = true → key' = some ⟨false, tokens.length, 0, column⟩) ∧
      (line column ((Literal.text s).print ++ rest) tokens keyAllowed key keys).token?
          ⟨'\x22', 0, column⟩
          (lineGlyphs (column + 1) (s.toList.flatMap escapeChar ++ '\x22' :: rest)) =
        some (line (column + (Literal.text s).print.length) rest
          (.scalar .doubleQuoted s :: tokens) false key' keys) := by
  obtain ⟨key', hkey', hsave, hexact⟩ := saveKey?_line '\x22' column
    ((Literal.text s).print ++ rest) tokens keyAllowed hkey hne
  refine ⟨key', hkey', hexact, ?_⟩
  have hread := readDoubleQuoted_print hs [] [] rest (column + 1) (Nat.succ_pos column)
  have hcolumns : column + 1 + (s.toList.flatMap escapeChar).length + 1 =
      column + (Literal.text s).print.length := by
    simp only [Literal.print, List.length_cons, List.length_append, List.length_nil]
    omega
  rw [hcolumns] at hread
  change readDoubleQuoted [] .none _ = _ at hread
  have hquote : (line column ((Literal.text s).print ++ rest) tokens keyAllowed key keys).token?
      ⟨'\x22', 0, column⟩
      (lineGlyphs (column + 1) (s.toList.flatMap escapeChar ++ '\x22' :: rest)) =
      (line column ((Literal.text s).print ++ rest) tokens keyAllowed key keys).inlineToken?
        ⟨'\x22', 0, column⟩ (.scalar .doubleQuoted s)
        (lineGlyphs (column + (Literal.text s).print.length) rest) := by
    simp [token?, hcolumn, hread]
  rw [hquote, inlineToken?, hsave]
  rfl

theorem leads_literal {s : String} (hs : Steady s) (hcolumn : 0 < column) (hdepth : 0 < depth) :
    Leads (Inside depth column ((Literal.text s).print ++ rest) tokens keyAllowed)
      (Inside depth (column + (Literal.text s).print.length) rest
        (.scalar .doubleQuoted s :: tokens) false) := by
  have hprint : (Literal.text s).print ++ rest =
      '\x22' :: (s.toList.flatMap escapeChar ++ '\x22' :: rest) := by
    simp [Literal.print]
  rw [hprint]
  refine .of_token? (by decide) hcolumn hdepth ?_
  rintro key keys hkey hkeys rfl
  obtain ⟨key', hkey', -, htoken⟩ :=
    token?_literal rest tokens keyAllowed hs hcolumn hkey (List.ne_nil_of_length_pos hdepth)
  rw [← hprint]
  refine ⟨_, htoken, ?_, key', keys, rfl, hkey', hkeys, rfl⟩
  simp [line]
  omega

/-- A colon behind a name that is not too long. -/
theorem token?_colon {s : String} {start : Nat} {keys : List (Option PossibleKey)}
    (hcolumn : 0 < column) (hne : keys ≠ []) :
    (line column (':' :: rest) (.scalar .doubleQuoted s :: tokens) false
        (some ⟨false, tokens.length, 0, start⟩) keys).token? ⟨':', 0, column⟩
        (lineGlyphs (column + 1) rest) =
      some (line (column + 1) rest (.value :: .scalar .doubleQuoted s :: .key :: tokens) false none
        keys) := by
  have hflow := flow_line column (':' :: rest) (.scalar .doubleQuoted s :: tokens) false
    (some ⟨false, tokens.length, 0, start⟩) hne
  have hvalue : (line column (':' :: rest) (.scalar .doubleQuoted s :: tokens) false
      (some ⟨false, tokens.length, 0, start⟩) keys).token? ⟨':', 0, column⟩
      (lineGlyphs (column + 1) rest) =
      (line column (':' :: rest) (.scalar .doubleQuoted s :: tokens) false
        (some ⟨false, tokens.length, 0, start⟩) keys).value? ⟨':', 0, column⟩
        (lineGlyphs (column + 1) rest) := by
    simp [token?, hcolumn, hflow]
  rw [hvalue]
  simp [value?, line, pushAt, putBehind, push, openBlock, Layout.flow, hne]

/-- **A name and its colon.** Where the colon is met, the mark of the key goes in front of the
name. -/
theorem leads_name {s : String} (hs : Steady s) (hshort : (Literal.text s).print.length ≤ 1024)
    (hcolumn : 0 < column) (hdepth : 0 < depth) :
    Leads (Inside depth column ((Literal.text s).print ++ ':' :: rest) tokens true)
      (Inside depth (column + (Literal.text s).print.length + 1) rest
        (.value :: .scalar .doubleQuoted s :: .key :: tokens) false) := by
  have hprint : (Literal.text s).print ++ ':' :: rest =
      '\x22' :: (s.toList.flatMap escapeChar ++ '\x22' :: ':' :: rest) := by
    simp [Literal.print]
  rintro _ ⟨key, keys, rfl, hkey, hkeys, rfl⟩
  have hne : keys ≠ [] := List.ne_nil_of_length_pos hdepth
  -- the name
  obtain ⟨key₁, hdrop, hkey₁⟩ := dropStale?_of_loose hkey ⟨'\x22', 0, column⟩
  obtain ⟨keys₁, hdrops, hkeys₁, hlength₁⟩ :=
    mapM_dropStale?_of_loose hkeys ⟨'\x22', 0, column⟩
  have hne₁ : keys₁ ≠ [] := List.ne_nil_of_length_pos (by rwa [hlength₁])
  obtain ⟨key₂, hkey₂, hexact, htoken⟩ :=
    token?_literal (':' :: rest) tokens true hs hcolumn hkey₁ hne₁
  obtain rfl := hexact rfl
  have hname := next?_line (s.toList.flatMap escapeChar ++ '\x22' :: ':' :: rest) tokens true
    (c := '\x22') (by decide) hcolumn hne hlength₁ hdrop hdrops
  rw [← hprint, htoken] at hname
  -- the colon
  set column' := column + (Literal.text s).print.length with hcolumn'
  have hfresh : dropStale? ⟨':', 0, column'⟩ (some ⟨false, tokens.length, 0, column⟩) =
      some (some ⟨false, tokens.length, 0, column⟩) := by
    have hstale : ¬ column + 1024 < column' := by omega
    simp [dropStale?, isStale, hstale]
  obtain ⟨keys₂, hdrops₂, hkeys₂, hlength₂⟩ :=
    mapM_dropStale?_of_loose hkeys₁ ⟨':', 0, column'⟩
  have hcolon := next?_line rest (.scalar .doubleQuoted s :: tokens) false (c := ':') (by decide)
    (by omega) hne₁ hlength₂ hfresh hdrops₂
  have hne₂ : keys₂ ≠ [] := List.ne_nil_of_length_pos (by rwa [hlength₂, hlength₁])
  rw [token?_colon (by omega) hne₂] at hcolon
  refine ⟨_, ⟨none, keys₂, rfl, loose_none, hkeys₂, hlength₂.trans hlength₁⟩,
    .step hname ?_ (.step hcolon ?_ (.refl _))⟩
  · simp [line, Literal.print]
    omega
  · simp [line]

/-- A number or a truth value, up to the next comma or bracket. -/
theorem leads_word {word : List Char} (hword : Wordlike word) (hne : word ≠ [])
    (hminus : word ≠ ['-']) (hrest : Follows rest) (hcolumn : 0 < column) (hdepth : 0 < depth) :
    Leads (Inside depth column (word ++ rest) tokens keyAllowed)
      (Inside depth (column + word.length) rest
        (.scalar .plain (String.ofList word) :: tokens) false) := by
  obtain ⟨c, word, rfl⟩ := List.exists_cons_of_ne_nil hne
  have hread := readPlain_word hword hrest 0 [] false column hcolumn
  have hc : c ∉ indicators := hword c (List.mem_cons_self ..)
  simp only [indicators, List.mem_cons, List.not_mem_nil, or_false, not_or] at hc
  -- a hyphen is not alone, and so begins a word and no entry of a block
  have hnext : c = '-' → ∃ d text, word ++ rest = d :: text ∧ d ∉ indicators := by
    rintro rfl
    have hword' : word ≠ [] := fun h => hminus (by rw [h])
    obtain ⟨d, word, rfl⟩ := List.exists_cons_of_ne_nil hword'
    exact ⟨d, word ++ rest, rfl, hword d (by simp)⟩
  have hgap : c = '-' → atGap (lineGlyphs (column + 1) (word ++ rest)) = false := by
    intro hc
    obtain ⟨d, text, htext, hd⟩ := hnext hc
    simp only [indicators, List.mem_cons, List.not_mem_nil, or_false, not_or] at hd
    simp [htext, lineGlyphs, atGap, Glyph.isWhite, isWhite, Glyph.isBreak, isBreak, hd]
  have hbegins : beginsPlain true c (lineGlyphs (column + 1) (word ++ rest)) = true := by
    by_cases hminus : c = '-'
    · obtain ⟨d, text, htext, hd⟩ := hnext hminus
      simp only [indicators, List.mem_cons, List.not_mem_nil, or_false, not_or] at hd
      simp [beginsPlain, hminus, htext, lineGlyphs, Glyph.isWhite, isWhite, hd]
    · simp [beginsPlain, hminus, hc]
  rw [List.cons_append]
  refine .of_token? (by simp [hc]) hcolumn hdepth ?_
  rintro key keys hkey hkeys rfl
  have hne : keys ≠ [] := List.ne_nil_of_length_pos hdepth
  obtain ⟨key', hkey', hsave, -⟩ := saveKey?_line c column (c :: (word ++ rest)) tokens keyAllowed
    hkey hne
  have hflow := flow_line column (c :: (word ++ rest)) tokens keyAllowed key hne
  have hplain : (line column (c :: (word ++ rest)) tokens keyAllowed key keys).token? ⟨c, 0, column⟩
      (lineGlyphs (column + 1) (word ++ rest)) =
      (line column (c :: (word ++ rest)) tokens keyAllowed key keys).plainScalar? ⟨c, 0, column⟩
        (lineGlyphs (column + 1) (word ++ rest)) := by
    by_cases hminus : c = '-'
    · subst hminus
      simp [token?, hcolumn, hgap rfl, hflow, hbegins]
    · simp [token?, hcolumn, hminus, hc, hflow, hbegins]
  rw [hplain, plainScalar?, hsave]
  refine ⟨line (column + (c :: word).length) rest
    (.scalar .plain (String.ofList (c :: word)) :: tokens) false key' keys, ?_, ?_, ?_⟩
  · have hread' : readPlain (line column (c :: (word ++ rest)) tokens keyAllowed key' keys).flow
        ((line column (c :: (word ++ rest)) tokens keyAllowed key' keys).indent + 1) [] .none false
        (⟨c, 0, column⟩ :: lineGlyphs (column + 1) (word ++ rest)) =
        some ⟨c :: word, false, lineGlyphs (column + (c :: word).length) rest⟩ := by
      rw [flow_line _ _ _ _ _ hne]
      exact hread
    rw [Option.bind_eq_bind, Option.bind_some, hread']
    rfl
  · simp [line]
  · exact ⟨key', keys, rfl, hkey', hkeys, rfl⟩

end

/-! ### Values -/

mutual

/-- The tokens of a value. -/
def tokensOf : Json → List Token
  | .null => [.scalar .plain "null"]
  | .bool b => [.scalar .plain (String.ofList (print (.bool b)))]
  | .number n => [.scalar .plain (String.ofList n.print)]
  | .string s => [.scalar .doubleQuoted (s.text?.getD "")]
  | .array items => .flowSequenceStart :: (itemTokens items ++ [.flowSequenceEnd])
  | .object members => .flowMappingStart :: (memberTokens members ++ [.flowMappingEnd])

/-- The tokens of items with commas between them. -/
def itemTokens : List Json → List Token
  | [] => []
  | [item] => tokensOf item
  | item :: items => tokensOf item ++ .flowEntry :: itemTokens items

/-- The tokens of members with commas between them. -/
def memberTokens : List (Literal × Json) → List Token
  | [] => []
  | [(name, value)] =>
    .key :: .scalar .doubleQuoted (name.text?.getD "") :: .value :: tokensOf value
  | (name, value) :: members => .key :: .scalar .doubleQuoted (name.text?.getD "") :: .value ::
      (tokensOf value ++ .flowEntry :: memberTokens members)

end

/-- Whether a text is read as the given tokens wherever it stands inside brackets. -/
def Scanned (text : List Char) (read : List Token) : Prop :=
  ∀ ⦃depth column : Nat⦄ ⦃rest : List Char⦄ ⦃tokens : List Token⦄ ⦃keyAllowed : Bool⦄,
    0 < depth → 0 < column → Follows rest →
    Leads (Inside depth column (text ++ rest) tokens keyAllowed)
      (Inside depth (column + text.length) rest (read.reverse ++ tokens) false)

/-- A name that its colon may follow. Longer ones are given up as keys before the colon is reached.
-/
def ShortName (name : String) : Prop := Clean name ∧ (Literal.text name).print.length ≤ 1024

theorem scanned_word {word : List Char} (hword : Wordlike word) (hne : word ≠ [])
    (hminus : word ≠ ['-']) : Scanned word [.scalar .plain (String.ofList word)] :=
  fun _ _ _ _ _ hdepth hcolumn hrest => leads_word hword hne hminus hrest hcolumn hdepth

theorem scanned_bool (b : Bool) : Scanned (print (.bool b)) (tokensOf (.bool b)) := by
  rw [tokensOf]
  refine scanned_word (wordlike_bool b) ?_ ?_
  all_goals cases b <;> decide

theorem scanned_integer (n : Int) :
    Scanned (print (.number (.integer n))) (tokensOf (.number (.integer n))) := by
  rw [tokensOf, print]
  have hdigits : ∀ m, Nat.toDigits 10 m ≠ [] := fun m => Nat.toDigits_ne_nil
  refine scanned_word (wordlike_integer n) ?_ ?_
  · cases n with
    | ofNat n => exact hdigits n
    | negSucc n => exact List.cons_ne_nil _ _
  · cases n with
    | ofNat n =>
      intro hminus
      have hdigit := digitValue?_of_mem_toDigits (n := n) (c := '-') (by
        rw [show Nat.toDigits 10 n = ['-'] from hminus]
        exact List.mem_singleton_self _)
      revert hdigit
      decide
    | negSucc n =>
      intro hminus
      exact hdigits (n + 1) (List.cons.inj hminus).2

theorem scanned_text {s : String} (hs : Steady s) :
    Scanned (print (.ofString s)) (tokensOf (.ofString s)) := by
  intro depth column rest tokens keyAllowed hdepth hcolumn _
  rw [ofString, tokensOf, print]
  exact leads_literal hs hcolumn hdepth

theorem itemTokens_cons_cons (item item' : Json) (items : List Json) :
    itemTokens (item :: item' :: items) =
      tokensOf item ++ .flowEntry :: itemTokens (item' :: items) := by
  rw [itemTokens]
  simp

/-- The items of a list, up to its closing bracket. -/
theorem leads_items {items : List Json} (hitems : ∀ j ∈ items, Scanned j.print (tokensOf j))
    (hne : items ≠ []) {depth : Nat} (column : Nat) {rest : List Char} (tokens : List Token)
    (keyAllowed : Bool) (hdepth : 0 < depth) (hcolumn : 0 < column) :
    Leads (Inside depth column (printItems items ++ ']' :: rest) tokens keyAllowed)
      (Inside depth (column + (printItems items).length) (']' :: rest)
        ((itemTokens items).reverse ++ tokens) false) := by
  induction items generalizing column tokens keyAllowed with
  | nil => exact absurd rfl hne
  | cons item items ih =>
    have hitem := hitems item (List.mem_cons_self ..)
    cases items with
    | nil =>
      rw [printItems, itemTokens]
      exact hitem hdepth hcolumn (follows_bracket rest)
    | cons item' items =>
      have hrest := ih (fun j hj => hitems j (List.mem_cons_of_mem item hj)) (List.cons_ne_nil _ _)
        (column + item.print.length + 1) (.flowEntry :: ((tokensOf item).reverse ++ tokens)) true
        (by omega)
      rw [printItems_cons_cons, itemTokens_cons_cons, List.append_assoc, List.cons_append]
      refine (hitem hdepth hcolumn (follows_comma _)).trans
        ((leads_comma (by omega) hdepth).trans ?_)
      simpa [Nat.add_assoc, Nat.add_comm 1] using hrest

theorem printName_eq (name : String) (text : List Char) :
    printName name text = (Literal.text name).print ++ ':' :: text := by
  simp [printName, Literal.print]

theorem memberTokens_cons_cons (name : String) (value : Json) (field : String × Json)
    (fields : List (String × Json)) :
    memberTokens (membersOf ((name, value) :: field :: fields)) =
      .key :: .scalar .doubleQuoted name :: .value ::
        (tokensOf value ++ .flowEntry :: memberTokens (membersOf (field :: fields))) := by
  rw [membersOf, List.map_cons, memberTokens]
  · rfl
  · simp

/-- The fields of a record, up to its closing brace. -/
theorem leads_members {fields : List (String × Json)} (hnames : ∀ f ∈ fields, ShortName f.1)
    (hfields : ∀ f ∈ fields, Scanned f.2.print (tokensOf f.2)) (hne : fields ≠ [])
    {depth : Nat} (column : Nat) {rest : List Char} (tokens : List Token) (hdepth : 0 < depth)
    (hcolumn : 0 < column) :
    Leads (Inside depth column (printMembers (membersOf fields) ++ '\x7d' :: rest) tokens true)
      (Inside depth (column + (printMembers (membersOf fields)).length) ('\x7d' :: rest)
        ((memberTokens (membersOf fields)).reverse ++ tokens) false) := by
  induction fields generalizing column tokens with
  | nil => exact absurd rfl hne
  | cons field fields ih =>
    obtain ⟨name, value⟩ := field
    obtain ⟨hname, hshort⟩ := hnames (name, value) (List.mem_cons_self ..)
    have hvalue : Scanned value.print (tokensOf value) :=
      hfields (name, value) (List.mem_cons_self ..)
    cases fields with
    | nil =>
      rw [printMembers_singleton, printName_append, printName_eq, printName_eq]
      refine (leads_name hname.steady hshort hcolumn hdepth).trans ?_
      have hread := @hvalue depth (column + (Literal.text name).print.length + 1) _
        (.value :: .scalar .doubleQuoted name :: .key :: tokens) false hdepth (by omega)
        (follows_brace rest)
      simpa [memberTokens, membersOf, Nat.add_assoc, Nat.add_comm 1, Literal.text?] using hread
    | cons field' fields =>
      have hrest := ih (fun f hf => hnames f (List.mem_cons_of_mem _ hf))
        (fun f hf => hfields f (List.mem_cons_of_mem _ hf)) (List.cons_ne_nil _ _)
        (column + (Literal.text name).print.length + 1 + value.print.length + 1)
        (.flowEntry :: ((tokensOf value).reverse ++
          .value :: .scalar .doubleQuoted name :: .key :: tokens)) (by omega)
      rw [printMembers_cons_cons, printName_append, printName_eq, printName_eq,
        memberTokens_cons_cons, List.append_assoc, List.cons_append]
      refine (leads_name hname.steady hshort hcolumn hdepth).trans
        ((hvalue hdepth (by omega) (follows_comma _)).trans
          ((leads_comma (by omega) hdepth).trans ?_))
      have hlength : column + (Literal.text name).print.length + 1 + value.print.length + 1 +
          (printMembers (membersOf (field' :: fields))).length =
          column + ((Literal.text name).print ++ ':' :: (value.print ++
            ',' :: printMembers (membersOf (field' :: fields)))).length := by
        simp only [List.length_append, List.length_cons]
        omega
      rw [hlength] at hrest
      simpa using hrest

theorem leads_list {items : List Json} (hitems : ∀ j ∈ items, Scanned j.print (tokensOf j))
    (depth column : Nat) (rest : List Char) (tokens : List Token) (hcolumn : 0 < column) :
    Leads (Inside (depth + 1) column (printItems items ++ ']' :: rest) tokens true)
      (Inside depth (column + (printItems items).length + 1) rest
        (.flowSequenceEnd :: ((itemTokens items).reverse ++ tokens)) false) := by
  by_cases hne : items = []
  · subst hne
    rw [printItems, itemTokens]
    exact leads_close hcolumn (.inl ⟨rfl, rfl⟩)
  · exact (leads_items hitems hne column tokens true (Nat.succ_pos depth) hcolumn).trans
      (leads_close (by omega) (.inl ⟨rfl, rfl⟩))

theorem scanned_array {items : List Json} (hitems : ∀ j ∈ items, Scanned j.print (tokensOf j)) :
    Scanned (print (.array items)) (tokensOf (.array items)) := by
  intro depth column rest tokens keyAllowed hdepth hcolumn _
  rw [print, tokensOf, List.cons_append, List.append_assoc, List.singleton_append]
  have hlist := leads_list hitems depth (column + 1) rest (.flowSequenceStart :: tokens)
    (Nat.succ_pos column)
  refine (leads_open hcolumn (.inl ⟨rfl, rfl⟩) hdepth).trans ?_
  simpa [Nat.add_assoc, Nat.add_comm 1] using hlist

theorem scanned_record {fields : List (String × Json)} (hnames : ∀ f ∈ fields, ShortName f.1)
    (hfields : ∀ f ∈ fields, Scanned f.2.print (tokensOf f.2)) :
    Scanned (print (.record fields)) (tokensOf (.record fields)) := by
  intro depth column rest tokens keyAllowed hdepth hcolumn _
  change Leads (Inside depth column (print (.object (membersOf fields)) ++ rest) tokens keyAllowed)
    (Inside depth (column + (print (.object (membersOf fields))).length) rest
      ((tokensOf (.object (membersOf fields))).reverse ++ tokens) false)
  rw [print, tokensOf, List.cons_append, List.append_assoc, List.singleton_append]
  refine (leads_open hcolumn (.inr ⟨rfl, rfl⟩) hdepth).trans ?_
  by_cases hne : fields = []
  · subst hne
    have hclose : Leads (Inside (depth + 1) (column + 1) ('\x7d' :: rest)
        (.flowMappingStart :: tokens) true) (Inside depth (column + 1 + 1) rest
        (.flowMappingEnd :: .flowMappingStart :: tokens) false) :=
      leads_close (by omega) (.inr ⟨rfl, rfl⟩)
    simpa [membersOf, printMembers, memberTokens] using hclose
  · refine (leads_members hnames hfields hne (column + 1) (.flowMappingStart :: tokens)
      (Nat.succ_pos depth) (Nat.succ_pos column)).trans ?_
    have hclose : Leads (Inside (depth + 1)
        (column + 1 + (printMembers (membersOf fields)).length) ('\x7d' :: rest)
        ((memberTokens (membersOf fields)).reverse ++ .flowMappingStart :: tokens) false)
        (Inside depth (column + 1 + (printMembers (membersOf fields)).length + 1) rest
        (.flowMappingEnd :: ((memberTokens (membersOf fields)).reverse ++
          .flowMappingStart :: tokens)) false) :=
      leads_close (by omega) (.inr ⟨rfl, rfl⟩)
    simpa [Nat.add_assoc, Nat.add_comm 1] using hclose

/-- **A value is read as its tokens,** wherever it stands inside brackets. -/
theorem scanned_print {j : Json} (h : Plain Steady ShortName j) : Scanned j.print (tokensOf j) := by
  induction h with
  | bool b => exact scanned_bool b
  | integer n => exact scanned_integer n
  | text hs => exact scanned_text hs
  | array _ ih => exact scanned_array ih
  | record hnames _ ih => exact scanned_record hnames ih

/-! ### Whole texts -/

/-- The bracket at the very beginning, where no block has been opened and no key is needed. -/
theorem next?_start (text : List Char) :
    ∃ l, (Layout.start (lineGlyphs 0 ('[' :: text))).next? = some l ∧ l.rest.length ≤ text.length ∧
      Inside 1 1 text [.flowSequenceStart] true l := by
  refine ⟨line 1 text [.flowSequenceStart] true none [some ⟨false, 0, 0, 0⟩], ?_, by simp [line],
    none, [some ⟨false, 0, 0, 0⟩], rfl, loose_none, by simp [Loose], rfl⟩
  have hmarker : ∀ mark, '[' ≠ mark → atMarker mark (⟨'[', 0, 0⟩ :: lineGlyphs 1 text) = false :=
    fun mark hmark => atMarker_of_ne _ hmark
  simp [Layout.next?, Layout.start, lineGlyphs, skipBetween, Glyph.isBreak, isBreak, lineSeparator,
    paragraphSeparator, byteOrderMark, dropStaleKeys?, dropStale?, closeBlocks, Layout.flow,
    closeBlocksFrom, token?, hmarker, openFlow?, saveKey?, dropKey?, line, push]

/-- At the end of the source nothing is left to close. -/
theorem next?_end {column : Nat} {tokens : List Token} {keyAllowed : Bool} {l : Layout}
    (h : Inside 0 column [] tokens keyAllowed l) :
    l.rest = [] ∧ ∃ l', l.next? = some l' ∧ l'.tokens = tokens := by
  obtain ⟨key, keys, rfl, hkey, -, hlength⟩ := h
  obtain rfl := List.length_eq_zero_iff.mp hlength
  have hany : key.any PossibleKey.required = false := hkey
  refine ⟨rfl, line column [] tokens keyAllowed none [], ?_, rfl⟩
  simp [Layout.next?, line, lineGlyphs, skipBetween, closeBlocks, Layout.flow, closeBlocksFrom,
    dropKey?, hany]

/-- **The text of a list** is read as the tokens of the list. -/
theorem tokens?_print {items : List Json} (h : ∀ j ∈ items, Plain Steady ShortName j) :
    tokens? (print (.array items)) = some (tokensOf (.array items)) := by
  have hinline : ∀ c ∈ print (.array items), Inline c :=
    inline_print (fun _ hname => hname.1.steady) (.array h)
  have hprint : print (.array items) = '[' :: (printItems items ++ [']']) := by rw [print]
  rw [tokens?, glyphs?_of_inline hinline, Option.bind_eq_bind, Option.bind_some, hprint]
  obtain ⟨l, hnext, hless, hl⟩ := next?_start (printItems items ++ [']'])
  obtain ⟨l', hl', hscans⟩ :=
    leads_list (fun j hj => scanned_print (h j hj)) 0 1 [] [.flowSequenceStart]
    (Nat.succ_pos 0) l hl
  obtain ⟨hend, last, hlast, htokens⟩ := next?_end hl'
  have hall : (Layout.start (lineGlyphs 0 ('[' :: (printItems items ++ [']'])))).readAll?
      (lineGlyphs 0 ('[' :: (printItems items ++ [']']))).length = some last := by
    rw [← hlast]
    refine Scans.readAll? (.step hnext ?_ hscans) hend (Nat.le_refl _)
    simp only [Layout.start, length_lineGlyphs, List.length_cons]
    omega
  rw [tokensOfGlyphs?, hall, Option.bind_eq_bind, Option.bind_some, htokens, tokensOf]
  simp

end ControlPlane.Yaml
