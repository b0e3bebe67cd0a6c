import ControlPlane.Yaml.Node
import ControlPlane.Yaml.Token.OfSource

/-!
# The document of a stream of tokens

A recursive-descent reader of the grammar of YAML. A stream may hold no document, which counts as
an absent node, or one; anything behind it but document ends makes it invalid.

Two rules of the grammar are narrower than one might expect. A key inside square brackets that
is marked, but left out, also swallows the token behind the mark. And the number of an anchor is
the number of anchor names known before it, so that giving a name a second time can make two names
share a number; the node that comes last then counts for both.

## Implementation notes

`bound` decreases with every call. A call that consumes no token is followed by one that does, so
three times the number of tokens is enough.
-/

namespace ControlPlane.Yaml

/-- What has been read of a stream of tokens. Nodes are found again by the numbers of their anchors,
so nothing of a node is kept here unless it has an anchor. -/
structure Reading where
  rest : List Token
  /-- The handles of tags with their expansions. -/
  handles : List (String × String)
  /-- The anchor names so far with their present numbers. -/
  names : List (String × Nat)
  anchored : List Anchored
  /-- The number of nodes and ends of collections so far. -/
  size : Nat
deriving Inhabited

namespace Reading

/-- The same state with other tokens to come. -/
def goOn (r : Reading) (rest : List Token) : Reading := { r with rest := rest }

/-- One more node, or end of a collection. -/
def grow (r : Reading) : Reading := { r with size := r.size + 1 }

/-- The first token that is still to come. -/
def peek? (r : Reading) : Option Token := r.rest.head?

/-- Whether one of the tokens comes next. -/
def nextIn (r : Reading) (tokens : List Token) : Bool := r.peek?.any tokens.contains

/-- The state behind the next token. -/
def skip (r : Reading) : Reading := { r with rest := r.rest.tail }

/-- The number for a new occurrence of an anchor name, and the state that knows it. A name that
occurs again gets another number without becoming one more name, so the next new name gets that
number as well. -/
def nameAnchor (r : Reading) (name : String) : Nat × Reading :=
  let number := r.names.length
  let names :=
    if r.names.any (·.1 == name) then
      r.names.map fun entry => if entry.1 == name then (name, number) else entry
    else (name, number) :: r.names
  (number, { r with names := names })

/-- The tag that handle and suffix stand for. A handle that nobody has declared is refused. -/
def resolveTag? (r : Reading) (handle suffix : String) : Option String :=
  if handle.isEmpty then some suffix else (r.handles.lookup handle).map (· ++ suffix)

/-- A node left out, which counts as a node. -/
def absent (r : Reading) : Node × Reading := (.absent, r.grow)

end Reading

/-- The properties of a node: the name of its anchor, and its tag. -/
structure Properties where
  anchor : Option String
  tag : Option String
deriving Inhabited

/-- The properties in front of a node, in either order. -/
def readProperties? (r : Reading) : Option (Properties × Reading) :=
  match r.rest with
  | .anchor name :: .tag handle suffix :: rest => do
    return (⟨some name, some (← r.resolveTag? handle suffix)⟩, r.goOn rest)
  | .tag handle suffix :: .anchor name :: rest => do
    return (⟨some name, some (← r.resolveTag? handle suffix)⟩, r.goOn rest)
  | .anchor name :: rest => some (⟨some name, none⟩, r.goOn rest)
  | .tag handle suffix :: rest => do
    return (⟨none, some (← r.resolveTag? handle suffix)⟩, r.goOn rest)
  | _ => some (⟨none, none⟩, r)

/-- Which collections may begin without brackets. -/
inductive Context where
  /-- Only collections in brackets. -/
  | flow
  /-- Blocks too. -/
  | block
  /-- Blocks, and a sequence whose hyphens are not indented, as it may stand behind a key. -/
  | indentless
deriving DecidableEq, Inhabited

/-- Registers a node under the number of its anchor. -/
def register (anchor : Option Nat) (place : Nat) (node : Node) (r : Reading) : Reading :=
  match anchor with
  | some number => { r with anchored := ⟨number, place, node⟩ :: r.anchored }
  | none => r

mutual

/-- A node with its properties. An alias has none and is not registered; the name that it refers to
has to have occurred before it. -/
def readNode? : (bound : Nat) → Context → Reading → Option (Node × Reading)
  | 0, _, _ => none
  | bound + 1, context, r =>
    match r.rest with
    | .alias name :: rest => do
      return (.alias (← r.names.lookup name), (r.goOn rest).grow)
    | _ => do
      let (properties, r) ← readProperties? r
      let place := r.size
      let (number, r) :=
        match properties.anchor with
        | some name =>
          let (number, r) := r.nameAnchor name
          (some number, r)
        | none => (none, r)
      let (node, r) ← readContent? bound context properties r
      return (node, register number place node r)

/-- A node behind its properties. -/
def readContent? : (bound : Nat) → Context → Properties → Reading → Option (Node × Reading)
  | 0, _, _, _ => none
  | bound + 1, context, properties, r =>
    match r.rest with
    | .scalar style text :: rest => some (.scalar style properties.tag text, (r.goOn rest).grow)
    | .flowSequenceStart :: rest => do
      let (items, r) ← readFlowItems? bound true (r.goOn rest).grow
      return (.sequence items, r)
    | .flowMappingStart :: rest => do
      let (pairs, r) ← readFlowPairs? bound true (r.goOn rest).grow
      return (.mapping pairs, r)
    | .blockEntry :: _ =>
      if context = .indentless then do
        let (items, r) ← readIndentlessItems? bound r.grow
        return (.sequence items, r)
      else if properties.anchor.isSome || properties.tag.isSome then
        some (.scalar .plain properties.tag "", r.grow)
      else none
    | .blockSequenceStart :: rest =>
      if context ≠ .flow then do
        let (items, r) ← readBlockItems? bound (r.goOn rest).grow
        return (.sequence items, r)
      else if properties.anchor.isSome || properties.tag.isSome then
        some (.scalar .plain properties.tag "", r.grow)
      else none
    | .blockMappingStart :: rest =>
      if context ≠ .flow then do
        let (pairs, r) ← readBlockPairs? bound (r.goOn rest).grow
        return (.mapping pairs, r)
      else if properties.anchor.isSome || properties.tag.isSome then
        some (.scalar .plain properties.tag "", r.grow)
      else none
    | _ =>
      if properties.anchor.isSome || properties.tag.isSome then
        some (.scalar .plain properties.tag "", r.grow)
      else none

/-- A node, unless one of `ends` comes next; then the node is absent. -/
def readOptional? : (bound : Nat) → Context → (ends : List Token) → Reading →
    Option (Node × Reading)
  | 0, _, _, _ => none
  | bound + 1, context, ends, r =>
    if r.nextIn ends then some r.absent else readNode? bound context r

/-- The items of a block sequence, up to and with its end. -/
def readBlockItems? : (bound : Nat) → Reading → Option (List Node × Reading)
  | 0, _ => none
  | bound + 1, r =>
    match r.rest with
    | .blockEntry :: rest => do
      let (item, r) ← readOptional? bound .block [.blockEntry, .blockEnd] (r.goOn rest)
      let (items, r) ← readBlockItems? bound r
      return (item :: items, r)
    | .blockEnd :: rest => some ([], (r.goOn rest).grow)
    | _ => none

/-- The items of a sequence whose hyphens are not indented. It has no end of its own, and ends with
the first token that is no hyphen. -/
def readIndentlessItems? : (bound : Nat) → Reading → Option (List Node × Reading)
  | 0, _ => none
  | bound + 1, r =>
    match r.rest with
    | .blockEntry :: rest => do
      let (item, r) ←
        readOptional? bound .block [.blockEntry, .key, .value, .blockEnd] (r.goOn rest)
      let (items, r) ← readIndentlessItems? bound r
      return (item :: items, r)
    | _ => some ([], r.grow)

/-- The pairs of a block mapping, up to and with its end. Key and value may each be left out, and
keys may repeat; that is for the reader of the fields to judge. -/
def readBlockPairs? : (bound : Nat) → Reading → Option (List (Node × Node) × Reading)
  | 0, _ => none
  | bound + 1, r =>
    match r.rest with
    | .key :: rest => do
      let (key, r) ← readOptional? bound .indentless [.key, .value, .blockEnd] (r.goOn rest)
      let (value, r) ← readBlockValue? bound r
      let (pairs, r) ← readBlockPairs? bound r
      return ((key, value) :: pairs, r)
    | .blockEnd :: rest => some ([], (r.goOn rest).grow)
    | _ => none

/-- The value of a pair in a block mapping. -/
def readBlockValue? : (bound : Nat) → Reading → Option (Node × Reading)
  | 0, _ => none
  | bound + 1, r =>
    match r.rest with
    | .value :: rest => readOptional? bound .indentless [.key, .value, .blockEnd] (r.goOn rest)
    | _ => some r.absent

/-- The items of a sequence in brackets, up to and with its end. A pair without braces is a mapping
of its own. -/
def readFlowItems? : (bound : Nat) → (first : Bool) → Reading → Option (List Node × Reading)
  | 0, _, _ => none
  | bound + 1, first, r =>
    if r.nextIn [.flowSequenceEnd] then some ([], r.skip.grow)
    else if !first && !r.nextIn [.flowEntry] then none
    else
      let r := if first then r else r.skip
      if r.nextIn [.flowSequenceEnd] then some ([], r.skip.grow)
      else do
        let (item, r) ←
          if r.nextIn [.key] then readFlowPair? bound r.skip.grow else readNode? bound .flow r
        let (items, r) ← readFlowItems? bound false r
        return (item :: items, r)

/-- A mapping of one pair in square brackets, from behind the mark of its key. -/
def readFlowPair? : (bound : Nat) → Reading → Option (Node × Reading)
  | 0, _ => none
  | bound + 1, r => do
    let ends : List Token := [.value, .flowEntry, .flowSequenceEnd]
    let (key, r) ←
      if r.nextIn ends then
        let (key, r) := r.skip.absent
        some (key, r)
      else readNode? bound .flow r
    let (value, r) ←
      match r.rest with
      | .value :: rest => readOptional? bound .flow [.flowEntry, .flowSequenceEnd] (r.goOn rest)
      | _ => some r.absent
    return (.mapping [(key, value)], r.grow)

/-- The pairs of a mapping in braces, up to and with its end. -/
def readFlowPairs? : (bound : Nat) → (first : Bool) → Reading →
    Option (List (Node × Node) × Reading)
  | 0, _, _ => none
  | bound + 1, first, r =>
    if r.nextIn [.flowMappingEnd] then some ([], r.skip.grow)
    else if !first && !r.nextIn [.flowEntry] then none
    else
      let r := if first then r else r.skip
      if r.nextIn [.flowMappingEnd] then some ([], r.skip.grow)
      else do
        let (pair, r) ←
          if r.nextIn [.key] then do
            let (key, r) ← readOptional? bound .flow [.value, .flowEntry, .flowMappingEnd] r.skip
            let (value, r) ←
              match r.rest with
              | .value :: rest =>
                readOptional? bound .flow [.flowEntry, .flowMappingEnd] (r.goOn rest)
              | _ => some r.absent
            some ((key, value), r)
          else do
            let (key, r) ← readNode? bound .flow r
            let (value, r) := r.absent
            some ((key, value), r)
        let (pairs, r) ← readFlowPairs? bound false r
        return (pair :: pairs, r)

end

/-- The tag handles that are known without a directive. -/
def standardHandles : List (String × String) := [("!", "!"), ("!!", "tag:yaml.org,2002:")]

/-- The handles of the directives at the beginning of a stream, with the tokens behind them. There
may be one version, 1.1 or 1.2, and one expansion for each handle. -/
def readDirectives? (version : Bool) (handles : List (String × String)) :
    List Token → Option (Bool × List (String × String) × List Token)
  | .version major minor :: rest =>
    if version || major ≠ 1 || (minor ≠ 1 && minor ≠ 2) then none
    else readDirectives? true handles rest
  | .tagHandle handle expansion :: rest =>
    if handles.any (·.1 == handle) then none
    else readDirectives? version ((handle, expansion) :: handles) rest
  | rest => some (version, handles, rest)

/-- Whether a token ends a document that has no content. -/
def endsContent : Token → Bool
  | .version .. | .tagHandle .. | .documentStart | .documentEnd => true
  | _ => false

/-- The document of a stream that holds at most one. A stream with a second one is refused, since it
would be unclear which of them is meant. -/
def documentOfTokens? (tokens : List Token) : Option Document := do
  if tokens.isEmpty then return ⟨.absent, [], 1⟩
  let (version, handles, rest) ← readDirectives? false [] tokens
  let explicit := rest.head? == some .documentStart
  guard (explicit || (!version && handles.isEmpty))
  let r : Reading := ⟨if explicit then rest.tail else rest, handles ++ standardHandles, [], [], 0⟩
  let (root, r) ←
    if explicit && r.rest.head?.all endsContent then some r.absent
    else readNode? (6 * tokens.length + 6) .block r
  guard (r.rest.all (· == .documentEnd))
  return ⟨root, r.anchored, r.size⟩

/-- The document that a text consists of. -/
def Document.ofText? (text : List Char) : Option Document :=
  tokens? text >>= documentOfTokens?

end ControlPlane.Yaml
