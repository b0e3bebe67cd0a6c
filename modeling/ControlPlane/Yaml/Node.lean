import ControlPlane.Yaml.Token

/-!
# YAML documents

A document is a tree of nodes in which an alias refers to an anchored node. Anchors are numbered;
an alias holds the number that its name stood for where it was written. An alias may point at a
node that contains it, so following aliases need not come to an end by itself.
-/

namespace ControlPlane.Yaml

/-- A node of a document. Tags of collections carry no meaning here and are not kept. -/
inductive Node where
  | scalar (style : Style) (tag : Option String) (text : String)
  | sequence (items : List Node)
  | mapping (pairs : List (Node × Node))
  | alias (number : Nat)
deriving Inhabited

/-- The node that stands where a document leaves a value out. It is the empty plain scalar, which
cannot be written in another way. -/
def Node.absent : Node := .scalar .plain none ""

/-- An anchored node. Aliases refer to it by a number, since the same name may be given again
further down. -/
structure Anchored where
  /-- The number of the anchor. -/
  number : Nat
  /-- The place of the node: how many nodes and ends of collections begin before it. It is what
  orders anchored nodes when several have one number. -/
  place : Nat
  node : Node
deriving Inhabited

/-- A document with what is needed to follow its aliases. -/
structure Document where
  root : Node
  anchored : List Anchored
  /-- The number of nodes and ends of collections, by which the following of aliases is limited. -/
  size : Nat
deriving Inhabited

/-- The node that a number stands for. If several nodes have it, the last one in the document
counts. -/
def lastAnchored? (number : Nat) (anchored : List Anchored) : Option Anchored :=
  anchored.foldl (fun found a =>
    if a.number ≠ number then found
    else match found with
      | some b => if b.place < a.place then some a else some b
      | none => some a) none

end ControlPlane.Yaml
