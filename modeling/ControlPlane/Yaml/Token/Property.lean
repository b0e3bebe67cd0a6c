import ControlPlane.Text.Digits
import ControlPlane.Yaml.Source
import ControlPlane.Yaml.Token

/-!
# Names in YAML sources

Anchors and aliases, tags, and the two directives. Percent escapes in a tag stand for octets, which
are kept as the characters of those numbers; they have to spell UTF-8, sequence by sequence.
-/

namespace ControlPlane.Yaml

/-- The characters of names: letters and digits of ASCII, the underscore and the hyphen. -/
def isNameChar (c : Char) : Bool :=
  ('0' ≤ c && c ≤ '9') || ('A' ≤ c && c ≤ 'Z') || ('a' ≤ c && c ≤ 'z') || c == '_' || c == '-'

/-- The longest name at the beginning of a source, with the source behind it. It may be empty. -/
def readName (source : List Glyph) : List Char × List Glyph :=
  ((source.takeWhile fun g => isNameChar g.char).map Glyph.char,
    source.dropWhile fun g => isNameChar g.char)

/-- Whether the name of an anchor or alias may end here. Anything else behind it is refused, and
does not begin another token. -/
def atNameEnd : List Glyph → Bool
  | [] => true
  | g :: source =>
    atGap (g :: source) || ['?', ':', ',', ']', '\x7d', '%', '@', '\x60'].contains g.char

/-- The name of an anchor or alias from behind its indicator, which has to have a character. -/
def readAnchorName (source : List Glyph) : Option (String × List Glyph) :=
  let (name, rest) := readName source
  if name.isEmpty || !atNameEnd rest then none else some (String.ofList name, rest)

/-! ### Tags -/

/-- The characters of tags apart from percent escapes; a tag in angle brackets and the expansion of
a handle may also contain `,` and square brackets. -/
def isTagChar (verbatim : Bool) (c : Char) : Bool :=
  isNameChar c ||
  [';', '/', '?', ':', '@', '&', '=', '+', '$', '.', '!', '~', '*', '\x27', '(', ')'].contains c ||
  (verbatim && [',', '[', ']'].contains c)

/-- The number of octets in the UTF-8 sequence that begins with an octet. -/
def sequenceLength? (octet : Nat) : Option Nat :=
  if octet < 0x80 then some 1
  else if octet / 0x20 == 6 then some 2
  else if octet / 0x10 == 14 then some 3
  else if octet / 0x08 == 30 then some 4
  else none

/-- The characters of a tag. `pending` octets of a sequence are still to come, which must be escaped
too. -/
def readTagChars (verbatim : Bool) (pending : Nat) : List Glyph → Option (List Char × List Glyph)
  | [] => if pending = 0 then some ([], []) else none
  | g :: source =>
    if g.char = '%' then
      match source with
      | a :: b :: source => do
        let octet ← numeral? 16 hexValue? [a.char, b.char]
        let pending ←
          if pending = 0 then (sequenceLength? octet).map (· - 1)
          else if octet / 0x40 == 2 then some (pending - 1) else none
        let (chars, rest) ← readTagChars verbatim pending source
        return (Char.ofNat octet :: chars, rest)
      | _ => none
    else if pending ≠ 0 then none
    else if isTagChar verbatim g.char then do
      let (chars, rest) ← readTagChars verbatim 0 source
      return (g.char :: chars, rest)
    else some ([], g :: source)

/-- A text as far as its first null character. -/
def upToNull (chars : List Char) : String :=
  String.ofList (chars.takeWhile fun c => c.toNat != 0)

/-- A handle from its first character, an exclamation mark: the mark, a name and perhaps a second
mark. -/
def readHandle : List Glyph → Option (List Char × List Glyph)
  | [] => none
  | g :: source =>
    if g.char = '!' then
      let (name, rest) := readName source
      match rest with
      | m :: rest' =>
        if m.char = '!' then some ('!' :: (name ++ ['!']), rest') else some ('!' :: name, rest)
      | [] => some ('!' :: name, [])
    else none

/-- Whether a handle is one, that is, ends in a second exclamation mark. Without it the name is the
beginning of a tag of one's own. -/
def isFullHandle (handle : List Char) : Bool :=
  2 ≤ handle.length && handle.getLast? == some '!'

/-- A tag from its first character, as handle and suffix. A tag in angle brackets has an empty
handle; the tag that consists of an exclamation mark alone is its own suffix. -/
def readTag (flow : Bool) (source : List Glyph) : Option (String × String × List Glyph) := do
  let (handle, suffix, rest) ←
    if startsWith '<' source.tail then do
      let (suffix, rest) ← readTagChars true 0 (source.drop 2)
      guard (!suffix.isEmpty && startsWith '>' rest)
      pure ("", upToNull suffix, rest.tail)
    else do
      let (handle, rest) ← readHandle source
      if isFullHandle handle then do
        let (suffix, rest) ← readTagChars false 0 rest
        guard !suffix.isEmpty
        pure (String.ofList handle, upToNull suffix, rest)
      else do
        let (more, rest) ← readTagChars false 0 rest
        let suffix := upToNull (handle.tail ++ more)
        if suffix.isEmpty then pure ("", "!", rest) else pure ("!", suffix, rest)
  guard (atGap rest || (flow && startsWith ',' rest))
  return (handle, suffix, rest)

/-! ### Directives -/

/-- A number of at most nine digits, which fits where it is kept. -/
def readVersionNumber (source : List Glyph) : Option (Nat × List Glyph) := do
  let digits := source.takeWhile fun g => (digitValue? g.char).isSome
  guard (digits.length ≤ 9)
  let n ← numeral? 10 digitValue? (digits.map Glyph.char)
  return (n, source.drop digits.length)

/-- The version behind the name of its directive. -/
def readVersion (source : List Glyph) : Option (Token × List Glyph) := do
  let (major, source) ← readVersionNumber (skipWhite source)
  guard (startsWith '.' source)
  let (minor, source) ← readVersionNumber source.tail
  return (.version major minor, source)

/-- The handle and its expansion behind the name of their directive. -/
def readTagHandle (source : List Glyph) : Option (Token × List Glyph) := do
  let (handle, source) ← readHandle (skipWhite source)
  guard (isFullHandle handle || handle.length == 1)
  guard (source.head?.any Glyph.isWhite)
  let (expansion, source) ← readTagChars true 0 (skipWhite source)
  guard (!expansion.isEmpty && atGap source)
  return (.tagHandle (String.ofList handle) (upToNull expansion), source)

/-- A directive from behind its percent sign, with the source behind its line. One of another name
is refused. -/
def readDirective (source : List Glyph) : Option (Token × List Glyph) := do
  let (name, source) := readName source
  guard (atGap source)
  let (token, source) ←
    if name = ['Y', 'A', 'M', 'L'] then readVersion source
    else if name = ['T', 'A', 'G'] then readTagHandle source
    else none
  let source ← skipLineTail? source
  return (token, source.tail)

end ControlPlane.Yaml
