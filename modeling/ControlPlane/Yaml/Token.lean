/-!
# YAML tokens

What a source consists of once its layout has been read: indentation appears as tokens that open
and close blocks, and a key is announced by a token of its own, whether it was marked or not.
-/

namespace ControlPlane.Yaml

/-- How a scalar is written. Its text does not tell any more, and what a text in quotes may stand
for depends on it. -/
inductive Style where
  | plain
  | singleQuoted
  | doubleQuoted
  | literal
  | folded
deriving DecidableEq, Inhabited

/-- The tokens of a stream of documents. Comments and white space are gone, and so is every trace of
where a token stood. -/
inductive Token where
  | version (major minor : Nat)
  | tagHandle (handle expansion : String)
  | documentStart
  | documentEnd
  | blockSequenceStart
  | blockMappingStart
  | blockEnd
  | flowSequenceStart
  | flowSequenceEnd
  | flowMappingStart
  | flowMappingEnd
  | blockEntry
  | flowEntry
  | key
  | value
  | alias (name : String)
  | anchor (name : String)
  | tag (handle suffix : String)
  | scalar (style : Style) (text : String)
deriving DecidableEq, Inhabited

end ControlPlane.Yaml
