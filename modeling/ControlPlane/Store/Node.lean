/-!
# Nodes and changes

A node is a key of the store with its value. Every change of the store has an index of its own, from
one counter, and a node carries the index of the change that it comes from.
-/

namespace ControlPlane

/-- A key with its value. -/
structure Node where
  key : String
  value : String
  /-- The index of the change that the value comes from. Two nodes of one key with one index have
  one value. -/
  index : Nat
deriving DecidableEq, Inhabited

/-- What happened to a key. Keys that are removed and keys whose time is over are told apart,
although both are gone. -/
inductive Action where
  | set
  | create
  | delete
  | expire
deriving DecidableEq, Inhabited

/-- Whether the key is gone after the change, so that there is no value to be read from it. -/
def Action.isRemoval : Action → Bool
  | delete | expire => true
  | set | create => false

/-- One change of the store, which concerns one key. -/
structure Change where
  action : Action
  /-- The node after the change; the key with an empty value if it is gone. Its index is that of the
  change. -/
  node : Node
deriving DecidableEq, Inhabited

end ControlPlane
