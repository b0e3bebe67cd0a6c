import ControlPlane.Feed
import ControlPlane.KeyMap
import ControlPlane.Store.Call
import ControlPlane.Store.Path
import ControlPlane.Text.Digits

/-!
# The store

A store in memory: its entries, the index of its last change, and its subscriptions.

Entries with a time to live are removed by the next call that comes after their time, whichever it
is; only opening and counting subscriptions leaves them. Every call computes its changes first and
then hands them to the subscriptions, so what a call answers and does to the entries never depends
on who is watching. A reader who falls behind never holds up a writer either: a change that finds
the buffer of a subscription full ends the subscription, whose reader then has to subscribe and read
again.
-/

namespace ControlPlane

/-- What is kept of a key. -/
structure Entry where
  value : String
  /-- The index of the change that wrote it, by which a reader sees whether it has been written
  again. -/
  index : Nat
  /-- The moment from which it is gone; none if it stays until it is removed. -/
  expires : Option Moment := none
deriving DecidableEq, Inhabited

/-- Whether the entry's time is over, which it is at that moment already and not only behind it. -/
def Entry.expired (e : Entry) (now : Moment) : Bool :=
  match e.expires with
  | some moment => moment ≤ now
  | none => false

/-- The entry as a node. When it expires is not told. -/
def Entry.toNode (key : String) (e : Entry) : Node := ⟨key, e.value, e.index⟩

/-- The entries of a store and the index of its last change. The index only grows, also when entries
are removed, so no number is given to two changes. -/
structure Contents where
  entries : KeyMap Entry := .empty
  index : Nat := 0
deriving Inhabited

namespace Contents

/-- The nodes under a directory, in ascending order of the keys. The keys that begin alike stand
together, so the walk starts where the first of them would stand and stops at the first key that
begins otherwise. -/
def walk (s : Contents) (dir : String) (recursive : Bool) : List Node :=
  let lead := Path.dirLead dir
  let begun := s.entries.entries.dropWhile fun entry => decide (entry.1 < String.ofList lead)
  let alike := begun.takeWhile fun entry => Path.begins lead entry.1
  (alike.filter fun entry => Path.isChild lead entry.1 recursive).map fun entry =>
    entry.2.toNode entry.1

/-- The changes that remove keys one after the other, the first of them after the change `index`.
Each has an index of its own, so that a reader sees as many changes as keys have gone. -/
def removals (action : Action) (index : Nat) : List String → List Change
  | [] => []
  | key :: keys => ⟨action, ⟨key, "", index + 1⟩⟩ :: removals action (index + 1) keys

@[simp] theorem length_removals (action : Action) (index : Nat) (keys : List String) :
    (removals action index keys).length = keys.length := by
  induction keys generalizing index with
  | nil => rfl
  | cons key keys ih => simp [removals, ih]

/-- Removes the entries that satisfy `doomed`, each by a change of its own, in ascending order of
the keys. -/
def remove (s : Contents) (action : Action) (doomed : String → Entry → Bool) :
    List Change × Contents :=
  let keys := (s.entries.filter doomed).keys
  (removals action s.index keys,
    { entries := s.entries.filter fun key entry => !doomed key entry
      index := s.index + keys.length })

/-- Removes the entries whose time is over. This is all that ever happens to an entry without a call
that names it. -/
def purge (s : Contents) (now : Moment) : List Change × Contents :=
  s.remove .expire fun _ entry => entry.expired now

/-- Writes a key. The value that was there before, and the time that it had left, are replaced; the
new time is counted from now. -/
def put (s : Contents) (now : Moment) (action : Action) (key value : String) (ttl : Option Span) :
    Node × List Change × Contents :=
  let entry : Entry :=
    { value := value, index := s.index + 1, expires := ttl.map fun ttl => now + ttl.toNanos }
  (entry.toNode key, [⟨action, entry.toNode key⟩],
    { entries := s.entries.insert key entry, index := s.index + 1 })

/-- The key of the next child of a directory. Its name is the index that its entry will have, with
enough zeros in front that children stand in the order in which they were added. The index was never
given to another change, so the key is a new one. -/
def childKey (s : Contents) (dir : String) : String :=
  String.ofList (Path.dirLead dir ++ paddedText 20 (s.index + 1))

/-! ### Calls

What a call gives, its changes and what it leaves, on contents of which nothing is expired. A call
that fails has no effect. -/

/-- What a call on contents comes to: its result, its changes and what it leaves, or a failure,
which leaves everything as it is. -/
abbrev Effect (α : Type) := Except Error (α × List Change × Contents)

/-- Reads one key. -/
def get (s : Contents) (key : String) : Effect Node :=
  match s.entries.get? key with
  | some entry => .ok (entry.toNode key, [], s)
  | none => .error (.keyNotFound key)

/-- Reads the keys under a directory. One without keys is not found, since directories are not kept
by themselves. -/
def list (s : Contents) (dir : String) (recursive : Bool) : Effect (List Node) :=
  match s.walk dir recursive with
  | [] => .error (.keyNotFound dir)
  | node :: nodes => .ok (node :: nodes, [], s)

/-- Writes a key that must not be there yet. Of two that create one key the second fails, whatever
it would have written. -/
def create (s : Contents) (now : Moment) (key value : String) (ttl : Option Span) : Effect Node :=
  if s.entries.contains key then .error (.keyExists key)
  else .ok (s.put now .create key value ttl)

/-- Removes a key, and everything under it if `recursive`. It fails if that is nothing at all; with
`recursive` the key itself need not be there. -/
def delete (s : Contents) (key : String) (recursive : Bool) : Effect Unit :=
  match s.remove .delete fun k _ => k == key || recursive && Path.isUnder key k true with
  | ([], _) => .error (.keyNotFound key)
  | (changes, s) => .ok ((), changes, s)

end Contents

/-- A subscription to the changes of a key. It begins with the changes that are made after it was
opened. -/
structure Subscription where
  key : String
  /-- Whether changes under the key count as well. -/
  recursive : Bool
  feed : Feed Change
deriving DecidableEq, Inhabited

namespace Subscription

/-- How many changes a subscription buffers before its reader is taken to have fallen behind. -/
def bufferSize : Nat := 16

/-- Whether a change of `key` is of interest. A key that only begins like the one that is watched is
not. -/
def covers (s : Subscription) (key : String) : Bool :=
  key == s.key || s.recursive && Path.isUnder s.key key true

/-- Hands the changes that are of interest to the reader, in order. A feed that fills up in the
middle ends there. -/
def deliver (changes : List Change) (s : Subscription) : Subscription :=
  { s with feed := (changes.filter fun c => s.covers c.node.key).foldl Feed.push s.feed }

end Subscription

/-- A store in memory. -/
structure Store where
  contents : Contents := {}
  /-- Every subscription that was ever opened, in order. None is forgotten, so that its place in the
  list is its number for ever. -/
  subscriptions : List Subscription := []
deriving Inhabited

namespace Store

/-- A store without entries, to which nobody has subscribed. -/
def empty : Store := {}

/-- Hands changes to the subscriptions. Each gets its part of them by itself, whatever becomes of
the others. -/
def deliver (s : Store) (changes : List Change) : Store :=
  { s with subscriptions := s.subscriptions.map (Subscription.deliver changes) }

/-- Opens a subscription. Slashes at the end of the key do not count, as in the name of a directory;
nothing needs to be under the key. -/
def subscribe (s : Store) (key : String) (recursive : Bool) : WatchId × Store :=
  let key := String.ofList (trimEnd '/' key.toList)
  let opened : Subscription := ⟨key, recursive, { capacity := Subscription.bufferSize }⟩
  (s.subscriptions.length, { s with subscriptions := s.subscriptions ++ [opened] })

/-- Makes a call on the contents at the moment `now`: first what is expired goes, then the call has
its effect, and at last the changes of both are handed on. A call that fails still makes way for
what is expired. -/
def update {α : Type} (s : Store) (now : Moment) (call : Contents → Contents.Effect α) :
    Except Error α × Store :=
  let (expiries, current) := s.contents.purge now
  match call current with
  | .ok (result, changes, contents) =>
    (.ok result, { s with contents := contents }.deliver (expiries ++ changes))
  | .error e => (.error e, { s with contents := current }.deliver expiries)

/-- Answers a call that is made at the moment `now`. Opening a subscription is the only one that
does not look at the time. -/
def perform (now : Moment) : (c : StoreCall) → Store → Except Error c.Result × Store
  | .get key, s => s.update now fun contents => contents.get key
  | .list dir recursive, s => s.update now fun contents => contents.list dir recursive
  | .set key value ttl, s => s.update now fun contents => .ok (contents.put now .set key value ttl)
  | .create key value ttl, s => s.update now fun contents => contents.create now key value ttl
  | .delete key recursive, s => s.update now fun contents => contents.delete key recursive
  | .addChild dir value ttl, s => s.update now fun contents =>
    .ok (contents.put now .create (contents.childKey dir) value (some ttl))
  | .watch key recursive, s => (.ok (s.subscribe key recursive).1, (s.subscribe key recursive).2)

/-- The feed of a subscription; one that was never opened has ended. -/
def feed (s : Store) (id : WatchId) : Feed Change :=
  (s.subscriptions[id]?.map Subscription.feed).getD .finished

/-- Changes the feed of a subscription, as its reader does, and nothing else of the store. -/
def modifyFeed {α : Type} (s : Store) (id : WatchId) (f : Feed Change → α × Feed Change) :
    α × Store :=
  let (a, feed) := f (s.feed id)
  (a, { s with subscriptions := s.subscriptions.modify id fun sub => { sub with feed := feed } })

/-- Lets go of every subscription, as a lost connection does. What is buffered can still be read. -/
def closeWatches (s : Store) : Store :=
  { s with subscriptions := s.subscriptions.map fun sub => { sub with feed := sub.feed.detach } }

/-- The number of subscriptions that are in use, by a writer and a reader. -/
def watchCount (s : Store) : Nat :=
  s.subscriptions.countP fun sub => sub.feed.isLive

end Store

end ControlPlane
