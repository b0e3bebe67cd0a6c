/-!
# YAML source text

The characters of a text with the place where each stands. Layout decides much of YAML, so the
column of a character is part of what a reader sees.

Line ends are made uniform on the way: a carriage return, a line feed, both together and the next
line character become one line feed. The line and paragraph separators of Unicode end lines too,
but keep their identity, since folding treats them differently.
-/

namespace ControlPlane.Yaml

/-- A character at its place. Lines and columns count from zero. The layout of a document is a
matter of columns, so a character is not kept without its place. -/
structure Glyph where
  char : Char
  line : Nat
  column : Nat
deriving DecidableEq, Inhabited

/-- The line separator, which ends a line like a line feed but is kept when lines are joined. -/
def lineSeparator : Char := Char.ofNat 0x2028

/-- The paragraph separator, which is treated as the line separator is. -/
def paragraphSeparator : Char := Char.ofNat 0x2029

/-- The next line character, which becomes a line feed. -/
def nextLine : Char := Char.ofNat 0x85

/-- The byte order mark, which has no width and may stand at the beginning of a line. -/
def byteOrderMark : Char := Char.ofNat 0xFEFF

/-- Whether a stream may contain the character at all. Control characters may not, with the
exception of the tab and of line ends; one of them anywhere makes the whole document unreadable. -/
def isAllowed (c : Char) : Bool :=
  c == '\t' || c == '\n' || c == '\r' || (0x20 ≤ c.toNat && c.toNat ≤ 0x7E) || c == nextLine ||
  (0xA0 ≤ c.toNat && c.toNat ≤ 0xFFFD) || 0x10000 ≤ c.toNat

/-- Whether the character is a space or a tab. -/
def isWhite (c : Char) : Bool := c == ' ' || c == '\t'

/-- Whether the character ends a line, after line ends were made uniform. -/
def isBreak (c : Char) : Bool := c == '\n' || c == lineSeparator || c == paragraphSeparator

/-- The glyphs of a text that starts at a place. A carriage return with a line feed behind it is one
line end. -/
def glyphsFrom (line column : Nat) : List Char → List Glyph
  | [] => []
  | '\r' :: '\n' :: text => ⟨'\n', line, column⟩ :: glyphsFrom (line + 1) 0 text
  | c :: text =>
    if c = '\r' || c = '\n' || c = nextLine then
      ⟨'\n', line, column⟩ :: glyphsFrom (line + 1) 0 text
    else if c = lineSeparator || c = paragraphSeparator then
      ⟨c, line, column⟩ :: glyphsFrom (line + 1) 0 text
    else ⟨c, line, column⟩ :: glyphsFrom line (column + 1) text

/-- The glyphs of a text, if it contains allowed characters only. -/
def glyphs? (text : List Char) : Option (List Glyph) :=
  if text.all isAllowed then some (glyphsFrom 0 0 text) else none

namespace Glyph

/-- Whether the glyph is a space or a tab. -/
def isWhite (g : Glyph) : Bool := Yaml.isWhite g.char

/-- Whether the glyph ends a line. -/
def isBreak (g : Glyph) : Bool := Yaml.isBreak g.char

end Glyph

/-- Whether the source is at its end, at a line end or at white space, any of which may stand behind
an indicator. -/
def atGap : List Glyph → Bool
  | [] => true
  | g :: _ => g.isWhite || g.isBreak

/-- Whether the source is at its end or at a line end. -/
def atLineEnd : List Glyph → Bool
  | [] => true
  | g :: _ => g.isBreak

/-- Whether the source begins with the character. -/
def startsWith (c : Char) : List Glyph → Bool
  | [] => false
  | g :: _ => g.char == c

/-- Whether the source is at three characters `c` alone at the beginning of a line. -/
def atMarker (c : Char) : List Glyph → Bool
  | g₁ :: g₂ :: g₃ :: rest =>
    g₁.column == 0 && g₁.char == c && g₂.char == c && g₃.char == c && atGap rest
  | _ => false

/-- Whether the source is at a line that separates documents. It ends whatever is being read,
scalars included. -/
def atSeparator (source : List Glyph) : Bool := atMarker '-' source || atMarker '.' source

/-- The source from its first glyph that is neither space nor tab. -/
def skipWhite (source : List Glyph) : List Glyph := source.dropWhile Glyph.isWhite

/-- The source from the end of its first line. -/
def skipToLineEnd (source : List Glyph) : List Glyph := source.dropWhile fun g => !g.isBreak

/-- The source from the end of its first line, if that line holds nothing but white space and
perhaps a comment. -/
def skipLineTail? (source : List Glyph) : Option (List Glyph) :=
  let source := skipWhite source
  if startsWith '#' source then some (skipToLineEnd source)
  else if atLineEnd source then some source
  else none

end ControlPlane.Yaml
