import ControlPlane.Yaml.Token.Property
import ControlPlane.Yaml.Token.Scalar

/-!
# The tokens of a YAML source

Layout is resolved here. Blocks open and close as the column moves, and a key is recognised only
when its colon is met: the reader remembers where a key could have begun and puts the tokens of the
key, and of the mapping that it opens, back to that place.

A key that was not marked has to stand on one line and within 1024 characters. Where the layout
leaves no choice, a token that turns out not to be a key makes the source invalid.

## Implementation notes

The tokens are kept in reverse together with their number, so that a place among them is a number
that stays valid when more tokens come. Every step of `Layout.next` consumes at least one glyph;
the number of glyphs therefore bounds the steps.
-/

namespace ControlPlane.Yaml

/-- A place where a key may have begun. Whether it has is only known at the colon behind it, and the
token of the key then has to be put in front of what was read meanwhile. -/
structure PossibleKey where
  /-- Whether the layout allows nothing but a key there. -/
  required : Bool
  /-- The number of tokens in front of the place. -/
  place : Nat
  line : Nat
  column : Nat
deriving DecidableEq, Inhabited

/-- What has been read of a source, and what the layout so far says about the rest. -/
structure Layout where
  rest : List Glyph
  /-- The tokens so far, the last one first. -/
  tokens : List Token
  /-- The number of tokens so far, of which places are made. -/
  count : Nat
  /-- The column of the innermost block, or `-1` outside of all blocks. -/
  indent : Int
  /-- The columns of the enclosing blocks, from the inside out. -/
  outerIndents : List Int
  /-- Whether a key may begin at the next glyph. -/
  keyAllowed : Bool
  /-- The place of a possible key in the innermost collection. -/
  possibleKey : Option PossibleKey
  /-- The same for the collections around it; there is one entry for each open bracket. -/
  outerKeys : List (Option PossibleKey)
deriving Inhabited

/-- The list with `x` put behind its first `n` elements, or at its end. -/
def putBehind {α : Type} (n : Nat) (x : α) (xs : List α) : List α :=
  xs.take n ++ x :: xs.drop n

namespace Layout

/-- The layout at the beginning of a source, where a key may begin at once. -/
def start (source : List Glyph) : Layout := ⟨source, [], 0, -1, [], true, none, []⟩

/-- Whether the source is inside brackets, where indentation means nothing. -/
def flow (l : Layout) : Bool := !l.outerKeys.isEmpty

/-- One more token. -/
def push (l : Layout) (token : Token) : Layout :=
  { l with tokens := token :: l.tokens, count := l.count + 1 }

/-- A token at an earlier place, behind which all later tokens move by one. No possible key is
behind that place, so none of their places changes. -/
def pushAt (l : Layout) (place : Nat) (token : Token) : Layout :=
  { l with tokens := putBehind (l.count - place) token l.tokens, count := l.count + 1 }

/-- Whether a possible key was given up at a glyph: it does not stand on the line, or too far. A key
without a mark has to be on one line and short, so that a reader need not look ahead without end. -/
def isStale (key : PossibleKey) (g : Glyph) : Bool :=
  key.line < g.line || key.column + 1024 < g.column

/-- Gives up a possible key that has become stale at a glyph. It is an error if nothing but a key
could have stood there. -/
def dropStale? (g : Glyph) : Option PossibleKey → Option (Option PossibleKey)
  | some key =>
    if isStale key g then if key.required then none else some none else some (some key)
  | none => some none

/-- Gives up the possible keys that have become stale at a glyph, in all collections that are open.
-/
def dropStaleKeys? (l : Layout) (g : Glyph) : Option Layout := do
  return { l with
    possibleKey := ← dropStale? g l.possibleKey
    outerKeys := ← l.outerKeys.mapM (dropStale? g) }

/-- Gives up the possible key of the innermost collection. -/
def dropKey? (l : Layout) : Option Layout :=
  if l.possibleKey.any PossibleKey.required then none else some { l with possibleKey := none }

/-- Remembers the glyph as a place where a key may begin. At the column of the block nothing else
may begin, so the key is required there. -/
def saveKey? (l : Layout) (g : Glyph) : Option Layout :=
  if l.keyAllowed then do
    let l ← l.dropKey?
    return { l with
      possibleKey := some ⟨!l.flow && l.indent == g.column, l.count, g.line, g.column⟩ }
  else some l

/-- Opens a block at a column to the right of the innermost one, with its token at a place. At the
same column the block is the one that is open already. -/
def openBlock (l : Layout) (column place : Nat) (token : Token) : Layout :=
  if !l.flow && l.indent < column then
    { l.pushAt place token with indent := column, outerIndents := l.indent :: l.outerIndents }
  else l

/-- Closes `indents` as far as they lie to the right of a column. -/
def closeBlocksFrom (column : Int) (l : Layout) (indent : Int) : List Int → Layout
  | [] =>
    if column < indent then { l.push .blockEnd with indent := -1, outerIndents := [] }
    else { l with indent := indent, outerIndents := [] }
  | outer :: indents =>
    if column < indent then closeBlocksFrom column (l.push .blockEnd) outer indents
    else { l with indent := indent, outerIndents := outer :: indents }

/-- Closes the blocks that lie to the right of a column. Inside brackets there are none. -/
def closeBlocks (l : Layout) (column : Int) : Layout :=
  if l.flow then l else closeBlocksFrom column l l.indent l.outerIndents

/-- The source from its next token, and whether a key may begin there. A line end allows a key
outside of brackets; a tab may precede a token only where no key may begin. -/
def skipBetween (flow : Bool) (keyAllowed comment : Bool) : List Glyph → Bool × List Glyph
  | [] => (keyAllowed, [])
  | g :: source =>
    if g.isBreak then skipBetween flow (keyAllowed || !flow) false source
    else if comment then skipBetween flow keyAllowed true source
    else if g.char == ' ' || (g.char == '\t' && (flow || !keyAllowed)) ||
        (g.column == 0 && g.char == byteOrderMark) then
      skipBetween flow keyAllowed false source
    else if g.char == '#' then skipBetween flow keyAllowed true source
    else (keyAllowed, g :: source)

/-- A directive, or a line that separates documents: all blocks end. -/
def betweenDocuments? (l : Layout) (token : Token) (rest : List Glyph) : Option Layout := do
  let l ← (l.closeBlocks (-1)).dropKey?
  return { l.push token with keyAllowed := false, rest := rest }

/-- An opening bracket. A collection in brackets may itself be a key, so its place is remembered
before it. -/
def openFlow? (l : Layout) (g : Glyph) (token : Token) (rest : List Glyph) : Option Layout := do
  let l ← l.saveKey? g
  return { l.push token with
    possibleKey := none
    outerKeys := l.possibleKey :: l.outerKeys
    keyAllowed := true
    rest := rest }

/-- A closing bracket. Whether it closes the bracket that was opened is found out from the tokens.
-/
def closeFlow? (l : Layout) (token : Token) (rest : List Glyph) : Option Layout := do
  let l ← l.dropKey?
  return { l.push token with
    possibleKey := l.outerKeys.headD none
    outerKeys := l.outerKeys.tail
    keyAllowed := false
    rest := rest }

/-- A comma inside brackets, or a comma that will be refused later. -/
def flowEntry? (l : Layout) (rest : List Glyph) : Option Layout := do
  let l ← l.dropKey?
  return { l.push .flowEntry with keyAllowed := true, rest := rest }

/-- The hyphen of a block sequence, which opens one if none is open at its column. -/
def blockEntry? (l : Layout) (g : Glyph) (rest : List Glyph) : Option Layout := do
  guard (l.flow || l.keyAllowed)
  let l ← (l.openBlock g.column l.count .blockSequenceStart).dropKey?
  return { l.push .blockEntry with keyAllowed := true, rest := rest }

/-- The mark of a key, behind which anything may be a key, on several lines too. -/
def markedKey? (l : Layout) (g : Glyph) (rest : List Glyph) : Option Layout := do
  guard (l.flow || l.keyAllowed)
  let l ← (l.openBlock g.column l.count .blockMappingStart).dropKey?
  return { l.push .key with keyAllowed := !l.flow, rest := rest }

/-- The colon of a value. If a key may have begun before, it has; otherwise the key was marked, or
is missing. -/
def value? (l : Layout) (g : Glyph) (rest : List Glyph) : Option Layout :=
  match l.possibleKey with
  | some key =>
    let l := (l.pushAt key.place .key).openBlock key.column key.place .blockMappingStart
    some { l.push .value with possibleKey := none, keyAllowed := false, rest := rest }
  | none => do
    guard (l.flow || l.keyAllowed)
    let l := l.openBlock g.column l.count .blockMappingStart
    return { l.push .value with keyAllowed := !l.flow, rest := rest }

/-- A token that may begin a key: an alias, a property or a scalar on one line. -/
def inlineToken? (l : Layout) (g : Glyph) (token : Token) (rest : List Glyph) : Option Layout := do
  let l ← l.saveKey? g
  return { l.push token with keyAllowed := false, rest := rest }

/-- A block scalar, which is never a key. -/
def blockScalar? (l : Layout) (folded : Bool) (source : List Glyph) : Option Layout := do
  let l ← l.dropKey?
  let (text, rest) ← readBlock folded l.indent source
  let style := if folded then Style.folded else Style.literal
  return { l.push (.scalar style (String.ofList text)) with keyAllowed := true, rest := rest }

/-- A plain scalar, which begins at the glyph. Only one on a single line can be a key. -/
def plainScalar? (l : Layout) (g : Glyph) (source : List Glyph) : Option Layout := do
  let l ← l.saveKey? g
  let scalar ← readPlain l.flow (l.indent + 1) [] .none false (g :: source)
  return { l.push (.scalar .plain (String.ofList scalar.text)) with
    keyAllowed := scalar.lineEnded, rest := scalar.rest }

/-- Whether a plain scalar may begin with `c` in front of `source`. A tab where a key may begin
begins nothing. -/
def beginsPlain (flow : Bool) (c : Char) (source : List Glyph) : Bool :=
  if c == '-' then !(source.head?.any Glyph.isWhite)
  else if c == '?' || c == ':' then !flow && !atGap source
  else !(['\t', ',', '[', ']', '\x7b', '\x7d', '#', '&', '*', '!', '|', '>', '\x27', '\x22', '%',
    '@', '\x60'].contains c)

/-- The token that begins at the glyph `g`, which is no space and no line end. -/
def token? (l : Layout) (g : Glyph) (source : List Glyph) : Option Layout :=
  let c := g.char
  if g.column = 0 && c = '%' then do
    let (token, rest) ← readDirective source
    l.betweenDocuments? token rest
  else if atMarker '-' (g :: source) then l.betweenDocuments? .documentStart (source.drop 2)
  else if atMarker '.' (g :: source) then l.betweenDocuments? .documentEnd (source.drop 2)
  else if c = '[' then l.openFlow? g .flowSequenceStart source
  else if c = '\x7b' then l.openFlow? g .flowMappingStart source
  else if c = ']' then l.closeFlow? .flowSequenceEnd source
  else if c = '\x7d' then l.closeFlow? .flowMappingEnd source
  else if c = ',' then l.flowEntry? source
  else if c = '-' && atGap source then l.blockEntry? g source
  else if c = '?' && (l.flow || atGap source) then l.markedKey? g source
  else if c = ':' && (l.flow || atGap source) then l.value? g source
  else if c = '*' then do
    let (name, rest) ← readAnchorName source
    l.inlineToken? g (.alias name) rest
  else if c = '&' then do
    let (name, rest) ← readAnchorName source
    l.inlineToken? g (.anchor name) rest
  else if c = '!' then do
    let (handle, suffix, rest) ← readTag l.flow (g :: source)
    l.inlineToken? g (.tag handle suffix) rest
  else if c = '|' && !l.flow then l.blockScalar? false source
  else if c = '>' && !l.flow then l.blockScalar? true source
  else if c = '\x27' then do
    let (text, rest) ← readSingleQuoted [] .none source
    l.inlineToken? g (.scalar .singleQuoted (String.ofList text)) rest
  else if c = '\x22' then do
    let (text, rest) ← readDoubleQuoted [] .none source
    l.inlineToken? g (.scalar .doubleQuoted (String.ofList text)) rest
  else if beginsPlain l.flow c source then l.plainScalar? g source
  else none

/-- The layout behind the next token; nothing but a closed layout comes after the last one. -/
def next? (l : Layout) : Option Layout :=
  let (keyAllowed, rest) := skipBetween l.flow l.keyAllowed false l.rest
  let l := { l with keyAllowed := keyAllowed, rest := rest }
  match rest with
  | [] => (l.closeBlocks (-1)).dropKey?
  | g :: source => do
    let l ← l.dropStaleKeys? g
    (l.closeBlocks g.column).token? g source

/-- Reads tokens until the source ends; `bound` is the number of steps left. -/
def readAll? : (bound : Nat) → Layout → Option Layout
  | 0, l => if l.rest.isEmpty then l.next? else none
  | bound + 1, l => if l.rest.isEmpty then l.next? else l.next? >>= readAll? bound

end Layout

/-- The tokens of a source, in order. -/
def tokensOfGlyphs? (source : List Glyph) : Option (List Token) := do
  let l ← (Layout.start source).readAll? source.length
  return l.tokens.reverse

/-- The tokens of a text. -/
def tokens? (text : List Char) : Option (List Token) :=
  glyphs? text >>= tokensOfGlyphs?

end ControlPlane.Yaml
