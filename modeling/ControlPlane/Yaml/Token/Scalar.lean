import ControlPlane.Text.Digits
import ControlPlane.Yaml.Source

/-!
# Scalars in YAML sources

The three families of scalars: quoted, plain and block scalars. All of them fold lines in their own
way; what stands between two words of a quoted or plain scalar is collected in a `Gap` and joined
when the next word begins.

Each reader recurs on the source and returns the source behind the scalar. A missing answer means
that the source is not valid there.
-/

namespace ControlPlane.Yaml

/-- What was read between two words: spaces until the first line end, then line ends only. What it
comes to is only known at the next word, and behind the last word it comes to nothing. -/
structure Gap where
  /-- The white space before the first line end, reversed. -/
  white : List Char
  /-- The first line end; an escaped one leaves no character. -/
  firstBreak : Option (Option Char)
  /-- The line ends after the first, reversed. -/
  moreBreaks : List Char
deriving DecidableEq, Inhabited

namespace Gap

/-- Nothing between two words. -/
def none : Gap := ⟨[], .none, []⟩

/-- The gap after an escaped line end. -/
def escaped : Gap := ⟨[], some .none, []⟩

/-- Whether the gap contains a line end. -/
def breaks (gap : Gap) : Bool := gap.firstBreak.isSome

/-- The gap with one more space or tab: kept on the first line, indentation on others. -/
def addWhite (gap : Gap) (c : Char) : Gap :=
  if gap.breaks then gap else { gap with white := c :: gap.white }

/-- The gap with one more line end. The white space before the first one is dropped. -/
def addBreak (gap : Gap) (c : Char) : Gap :=
  if gap.breaks then { gap with moreBreaks := c :: gap.moreBreaks }
  else ⟨[], some (some c), []⟩

/-- The text that a gap stands for: a single line feed becomes a space, one of several disappears,
and a separator stays. -/
def text (gap : Gap) : List Char :=
  match gap.firstBreak with
  | .none => gap.white.reverse
  | some .none => gap.moreBreaks.reverse
  | some (some c) =>
    if c = '\n' then if gap.moreBreaks.isEmpty then [' '] else gap.moreBreaks.reverse
    else c :: gap.moreBreaks.reverse

end Gap

/-! ### Quoted scalars -/

/-- The text of a scalar in single quotes from behind the opening one. `done` is the text read so
far, reversed. A quote in the text is doubled, and nothing else is escaped. -/
def readSingleQuoted (done : List Char) (gap : Gap) : List Glyph → Option (List Char × List Glyph)
  | [] => none
  | g :: source =>
    if atSeparator (g :: source) then none
    else if g.isWhite then readSingleQuoted done (gap.addWhite g.char) source
    else if g.isBreak then readSingleQuoted done (gap.addBreak g.char) source
    else
      let done := gap.text.reverse ++ done
      if g.char = '\x27' then
        match source with
        | q :: source' =>
          if q.char = '\x27' then readSingleQuoted ('\x27' :: done) .none source'
          else some (done.reverse, q :: source')
        | [] => some (done.reverse, [])
      else readSingleQuoted (g.char :: done) .none source

/-- The character of an escape that consists of one character behind the backslash. -/
def plainEscape? (c : Char) : Option Char :=
  if c = '0' then some (Char.ofNat 0)
  else if c = 'a' then some '\x07'
  else if c = 'b' then some '\x08'
  else if c = 't' || c = '\t' then some '\t'
  else if c = 'n' then some '\n'
  else if c = 'v' then some '\x0b'
  else if c = 'f' then some '\x0c'
  else if c = 'r' then some '\r'
  else if c = 'e' then some '\x1b'
  else if c = ' ' || c = '\x22' || c = '/' || c = '\x5c' then some c
  else if c = 'N' then some nextLine
  else if c = '_' then some (Char.ofNat 0xA0)
  else if c = 'L' then some lineSeparator
  else if c = 'P' then some paragraphSeparator
  else none

/-- The character of an escape by its number in hexadecimal. A number that is no character, as that
of half a pair, is refused. -/
def codeEscape? (digits : List Glyph) : Option Char := do
  let code ← numeral? 16 hexValue? (digits.map Glyph.char)
  guard (!(0xD800 ≤ code && code ≤ 0xDFFF) && code ≤ 0x10FFFF)
  return Char.ofNat code

/-- The text of a scalar in double quotes from behind the opening one. `done` is the text read so
far, reversed. What is escaped never belongs to a gap, so it is kept at the ends of lines too. -/
def readDoubleQuoted (done : List Char) (gap : Gap) : List Glyph → Option (List Char × List Glyph)
  | [] => none
  | g :: source =>
    if atSeparator (g :: source) then none
    else if g.isWhite then readDoubleQuoted done (gap.addWhite g.char) source
    else if g.isBreak then readDoubleQuoted done (gap.addBreak g.char) source
    else
      let done := gap.text.reverse ++ done
      if g.char = '\x22' then some (done.reverse, source)
      else if g.char = '\x5c' then
        match source with
        | [] => none
        | e :: source =>
          if e.isBreak then readDoubleQuoted done .escaped source
          else if e.char = 'x' then
            match source with
            | a :: b :: source => do
              readDoubleQuoted ((← codeEscape? [a, b]) :: done) .none source
            | _ => none
          else if e.char = 'u' then
            match source with
            | a :: b :: c :: d :: source => do
              readDoubleQuoted ((← codeEscape? [a, b, c, d]) :: done) .none source
            | _ => none
          else if e.char = 'U' then
            match source with
            | a :: b :: c :: d :: e :: f :: g :: h :: source => do
              readDoubleQuoted ((← codeEscape? [a, b, c, d, e, f, g, h]) :: done) .none source
            | _ => none
          else do
            readDoubleQuoted ((← plainEscape? e.char) :: done) .none source
      else readDoubleQuoted (g.char :: done) .none source

/-! ### Plain scalars -/

/-- Whether the character ends a plain scalar inside brackets. -/
def isFlowIndicator (c : Char) : Bool :=
  c == ',' || c == '[' || c == ']' || c == '\x7b' || c == '\x7d'

/-- A plain scalar that was read: its text, whether a line end follows it, and the source there. -/
structure PlainScalar where
  text : List Char
  lineEnded : Bool
  rest : List Glyph
deriving Inhabited

/-- Reads a plain scalar. `indent` is the least column of its further lines outside of brackets,
`done` its text so far, reversed, and `inWord` says that no gap precedes the next glyph. -/
def readPlain (flow : Bool) (indent : Int) (done : List Char) (gap : Gap) (inWord : Bool) :
    List Glyph → Option PlainScalar
  | [] => some ⟨done.reverse, gap.breaks, []⟩
  | g :: source =>
    if g.isWhite then
      if gap.breaks && (g.column : Int) < indent && g.char == '\t' then none
      else readPlain flow indent done (gap.addWhite g.char) false source
    else if g.isBreak then readPlain flow indent done (gap.addBreak g.char) false source
    else if !inWord && ((!flow && (g.column : Int) < indent && !done.isEmpty) ||
        atSeparator (g :: source) || g.char == '#') then
      some ⟨done.reverse, gap.breaks, g :: source⟩
    else if flow && g.char == ':' &&
        (startsWith '?' source || source.head?.any fun n => isFlowIndicator n.char) then none
    else if (g.char == ':' && atGap source) || (flow && isFlowIndicator g.char) then
      some ⟨done.reverse, gap.breaks, g :: source⟩
    else readPlain flow indent (g.char :: (gap.text.reverse ++ done)) .none true source

/-! ### Block scalars -/

/-- What happens to the line ends at the end of a block scalar. -/
inductive Chomping where
  | strip
  | clip
  | keep
deriving DecidableEq, Inhabited

/-- The chomping that an indicator asks for. -/
def chomping? (g : Glyph) : Option Chomping :=
  if g.char = '+' then some .keep else if g.char = '-' then some .strip else none

/-- The indentation that an indicator asks for; zero is not allowed. -/
def increment? (g : Glyph) : Option (Option Nat) :=
  (digitValue? g.char).map fun n => if n = 0 then none else some n

/-- The header of a block scalar behind its first character: chomping, the indentation that was
asked for, and the source behind the indicators. They may stand in either order. -/
def readBlockHeader : List Glyph → Option (Chomping × Option Nat × List Glyph)
  | [] => some (.clip, none, [])
  | g :: source =>
    match chomping? g with
    | some chomping =>
      match source with
      | [] => some (chomping, none, [])
      | d :: source' =>
        match increment? d with
        | some n => n.map fun n => (chomping, some n, source')
        | none => some (chomping, none, d :: source')
    | none =>
      match increment? g with
      | some n =>
        n.map fun n =>
          match source with
          | [] => (.clip, some n, [])
          | c :: source' =>
            match chomping? c with
            | some chomping => (chomping, some n, source')
            | none => (.clip, some n, c :: source')
      | none => some (.clip, none, g :: source)

/-- The empty lines at the beginning of a block scalar. `indent` is its indentation, or none if the
first line with text shall decide; `widest` is the widest empty line so far and `breaks` the line
ends, reversed. -/
def readLeadingBreaks (indent : Option Nat) (widest : Nat) (breaks : List Char) :
    List Glyph → Option (List Char × Nat × List Glyph)
  | [] => some (breaks, widest, [])
  | g :: source =>
    let inside := indent.all (g.column < ·)
    if inside && g.char == ' ' then readLeadingBreaks indent widest breaks source
    else if inside && g.char == '\t' then none
    else if g.isBreak then
      readLeadingBreaks indent (max widest g.column) (g.char :: breaks) source
    else some (breaks, max widest g.column, g :: source)

/-- What is known of a block scalar while its lines are read. -/
structure BlockText where
  /-- The text so far, reversed. -/
  done : List Char
  /-- The line end behind the last line with text. -/
  lastBreak : Option Char
  /-- The line ends of the empty lines after it, reversed. -/
  emptyLines : List Char
  /-- Whether the last line with text begins with white space. -/
  indented : Bool
deriving Inhabited

namespace BlockText

/-- The text when a line beginning with `g` comes next. A folded scalar joins two lines by a space,
unless one of them begins with white space or empty lines stand between them. -/
def beginLine (block : BlockText) (folded : Bool) (g : Glyph) : BlockText :=
  let joined :=
    if folded && block.lastBreak == some '\n' && !block.indented && !g.isWhite then
      if block.emptyLines.isEmpty then ' ' :: block.done else block.done
    else block.lastBreak.toList ++ block.done
  ⟨block.emptyLines ++ joined, none, [], g.isWhite⟩

/-- The text at the end of the scalar, where it is decided what becomes of the line ends behind the
last line. -/
def finish (block : BlockText) (chomping : Chomping) : List Char :=
  match chomping with
  | .strip => block.done.reverse
  | .clip => (block.lastBreak.toList ++ block.done).reverse
  | .keep => (block.emptyLines ++ (block.lastBreak.toList ++ block.done)).reverse

end BlockText

/-- The lines of a block scalar with a known indentation. `inLine` says that the indentation of the
current line has been read and the line belongs to the scalar. -/
def readBlockLines (folded : Bool) (indent : Nat) (block : BlockText) (inLine : Bool) :
    List Glyph → Option (BlockText × List Glyph)
  | [] => some (block, [])
  | g :: source =>
    if inLine then
      if g.isBreak then
        readBlockLines folded indent { block with lastBreak := some g.char } false source
      else readBlockLines folded indent { block with done := g.char :: block.done } true source
    else if g.column < indent && g.char == ' ' then
      readBlockLines folded indent block false source
    else if g.column < indent && g.char == '\t' then none
    else if g.isBreak then
      readBlockLines folded indent { block with emptyLines := g.char :: block.emptyLines } false
        source
    else if g.column == indent then
      let block := block.beginLine folded g
      readBlockLines folded indent { block with done := g.char :: block.done } true source
    else some (block, g :: source)

/-- A block scalar from behind its first character, inside a block of the given indentation. -/
def readBlock (folded : Bool) (parent : Int) (source : List Glyph) :
    Option (List Char × List Glyph) := do
  let (chomping, increment, source) ← readBlockHeader source
  let source ← skipLineTail? source
  let asked := increment.map fun n => if 0 ≤ parent then parent.toNat + n else n
  let (breaks, widest, source) ← readLeadingBreaks asked 0 [] source.tail
  let indent := asked.getD (max (max widest (parent + 1).toNat) 1)
  let (block, source) ← readBlockLines folded indent ⟨[], none, breaks, false⟩ false source
  return (block.finish chomping, source)

end ControlPlane.Yaml
