import ControlPlane.Span
import ControlPlane.Store.Node
import ControlPlane.Work

/-!
# What a store offers

The calls of a coordination store. A directory without keys does not exist, and listing it fails as
reading a missing key does, so that callers can take absence for an empty state.

`StoreWork` is work that makes such calls and may fail.
-/

namespace ControlPlane

/-- The number of a subscription, in the order in which they were opened. It is never given out
again. -/
abbrev WatchId := Nat

/-- The calls of a store. Each is carried out as a whole, so between two calls of one client there
may be any number of calls of others, and within a call there is none. -/
inductive StoreCall where
  /-- Reads one key. -/
  | get (key : String)
  /-- Reads the keys under a directory, at any depth if `recursive`. -/
  | list (dir : String) (recursive : Bool)
  /-- Writes a key, which is kept for `ttl`, or for good. -/
  | set (key value : String) (ttl : Option Span)
  /-- Writes a key that must not be there yet. -/
  | create (key value : String) (ttl : Option Span)
  /-- Removes a key, and everything under it if `recursive`. -/
  | delete (key : String) (recursive : Bool)
  /-- Writes a new child of a directory, with a name that has never been used. -/
  | addChild (dir value : String) (ttl : Span)
  /-- Subscribes to the changes of a key, and of everything under it if `recursive`. -/
  | watch (key : String) (recursive : Bool)
deriving DecidableEq, Inhabited

/-- What a call gives if it succeeds. A call that writes gives the node that it has written, whose
index is that of the change. -/
def StoreCall.Result : StoreCall → Type
  | get _ => Node
  | list .. => List Node
  | set .. => Node
  | create .. => Node
  | delete .. => Unit
  | addChild .. => Node
  | watch .. => WatchId

/-- The interface of a store. Any of its calls may fail, for reasons of the store and not only of
the call. -/
def storeCalls : Interface where
  Call := StoreCall
  Answer c := Except Error c.Result

/-- Work that uses a store. -/
abbrev StoreWork (α : Type) := Work storeCalls α

namespace StoreWork

/-- One call, whose failure is that of the work. -/
def call (c : StoreCall) : StoreWork c.Result :=
  ExceptT.mk (Program.ask (I := storeCalls) c)

end StoreWork

end ControlPlane
