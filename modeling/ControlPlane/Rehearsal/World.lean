import ControlPlane.Engine.Memory
import ControlPlane.Feed
import ControlPlane.Placement
import ControlPlane.Placement.Generator
import ControlPlane.Rehearsal.Fault
import ControlPlane.Settings
import ControlPlane.Store.Basic

/-!
# The world of a rehearsal

A rehearsal executes the control plane in one world: a store and container engines in memory, with
planned faults in front of them, a clock that only moves when everything waits, and draws that are
not random. `WorldCall` lists what the components may ask of the world, and `World.attempt` answers
a call or finds that it has to wait.

Draws are counted, so that what is random elsewhere can be told apart and is the same each time.
-/

namespace ControlPlane.Rehearsal

/-- The number of a program that is under way, by which the world knows who asks. -/
abbrev TicketId := Nat

/-- The number of a feed of manifest lists, in the order in which they were opened. -/
abbrev FeedId := Nat

/-- A lock: the programs that want it, in the order in which they asked. The first has it, so a lock
is handed on by taking the first away. -/
abbrev Lock := List TicketId

/-- The queue of a lock after a program has asked for it. A program that asks again, because it had
to wait, keeps its place. -/
def Lock.join (l : Lock) (ticket : TicketId) : Lock :=
  if l.contains ticket then l else l ++ [ticket]

/-- The locks of a world. -/
inductive LockName where
  /-- The lock on replication passes, of which there is one. -/
  | passes
  /-- The lock on the pulls of a host. -/
  | pulls (host : String)
deriving DecidableEq, Inhabited

/-- A call of a replication pass that was only written down. -/
inductive Note where
  | create (controller : String)
  | delete (task : String)
deriving DecidableEq, Inhabited

/-- A host with its engine, and with what is written down about it. -/
structure Host where
  settings : NodeSettings
  engine : Engine.Memory := {}
  faults : List Fault := []
  /-- The calls that changed something or tried to, in order. -/
  calls : List Engine.Call := []
  /-- The names that creations asked for, in order, from which the random part of a name is told. -/
  named : List String := []
  pullDelay : Span := .ofSeconds 0
  /-- The pulls that are under way. -/
  pulling : Nat := 0
  /-- The most pulls that were ever under way. -/
  mostPulls : Nat := 0
  pullLock : Lock := []
  /-- The feed on which a watcher hands lists to the steps, with the watcher. -/
  updates : Option (FeedId × TicketId) := none
  /-- The feed on which steps hand lists to a sync loop, and the moment of its start. -/
  loop : Option (FeedId × Moment) := none
  /-- The lists that this sync loop was given, with the moments. -/
  log : List (Moment × List Manifest) := []
deriving Inhabited

/-- Everything that a rehearsal keeps. There is one clock and one store for all components, and an
engine for each host. -/
structure World where
  clock : Moment := 0
  store : Store := {}
  storeFaults : List Fault := []
  hosts : KeyMap Host := .empty
  feeds : List (Feed (List Manifest)) := []
  passLock : Lock := []
  /-- What was only written down of replication passes. -/
  notes : List Note := []
  noteFaults : List Fault := []
  /-- The rotations of placements. -/
  turns : UInt64 := 0
  generator : Generator := {}
  /-- The ids and suffixes that were drawn, whose number stands in for chance. -/
  draws : Nat := 0
  suffixes : Nat := 0
deriving Inhabited

/-- The calls that the world understands. Every component is carried out by them, so a lock or a
wait means the same to all. -/
inductive WorldCall where
  | store (c : StoreCall)
  | engine (host : String) (c : Engine.Call)
  /-- Begins a pull, and gives the moment of its end. -/
  | beginPull (host : String)
  /-- Ends a pull. -/
  | endPull (host : String)
  | turn
  | pick (bound : Nat)
  /-- The id of a new task. -/
  | freshId
  /-- The suffix of a new name. -/
  | suffix
  /-- The Unix time in seconds, which is always the same one. -/
  | timestamp
  | now
  | waitUntil (moment : Moment)
  | acquire (lock : LockName)
  | release (lock : LockName)
  /-- Waits for a change, until a moment if there is one. -/
  | receiveChange (w : WatchId) (limit : Option Moment)
  | stopWatch (w : WatchId)
  /-- Waits until a feed takes a list. -/
  | send (feed : FeedId) (manifests : List Manifest)
  /-- Waits for a list until a moment. -/
  | receiveList (feed : FeedId) (limit : Moment)
  /-- Writes down a call of a replication pass. -/
  | note (n : Note)
  /-- Writes down a list that a sync loop was given. -/
  | log (host : String) (manifests : List Manifest)
deriving DecidableEq, Inhabited

/-- The answer to a call. -/
def WorldCall.Answer : WorldCall → Type
  | store c => Except Error c.Result
  | engine _ c => Except Error c.Result
  | beginPull _ => Moment
  | endPull _ => Unit
  | turn => UInt64
  | pick bound => Fin (bound + 1)
  | freshId => String
  | suffix => UInt32
  | timestamp => Int64
  | now => Moment
  | waitUntil _ => Unit
  | acquire _ => Unit
  | release _ => Unit
  | receiveChange .. => Received Change
  | stopWatch _ => Unit
  | send .. => Bool
  | receiveList .. => Received (List Manifest)
  | note _ => Except Error Unit
  | log .. => Unit

/-- The interface of the world. -/
def worldCalls : Interface where
  Call := WorldCall
  Answer := WorldCall.Answer

namespace World

/-! ### Hosts -/

/-- The host of a name. One that was never made has an engine without containers. -/
def host (w : World) (name : String) : Host := (w.hosts.get? name).getD { settings := {} }

/-- Changes a host. -/
def modifyHost (w : World) (name : String) (f : Host → Host) : World :=
  { w with hosts := w.hosts.insert name (f (w.host name)) }

/-- The call as it is written down, if it is. Looking changes nothing and is not written down. -/
def recorded : Engine.Call → List Engine.Call
  | .ping | .list | .inspect _ => []
  | c => [c]

/-- Answers a call of the engine of a host. It is written down before it can fail, so a call that
was refused is seen as well. -/
def onEngine (c : Engine.Call) (h : Host) : Except Error c.Result × Host :=
  let (method, subject) := Fault.ofEngineCall c
  let (fault, faults) := Fault.strike method subject h.faults
  let names := match c with
    | .create spec => [spec.name]
    | _ => []
  let h := { h with faults := faults, calls := h.calls ++ recorded c, named := h.named ++ names }
  match fault with
  | some e => (.error e, { h with engine := h.engine.refuse c })
  | none =>
    let (answer, engine) := h.engine.perform c
    (answer, { h with engine := engine })

/-! ### The store -/

/-- The moment that the store takes for the present. The clock of the rehearsal does not count for
the life of entries. -/
def storeTime : Moment := 0

/-- Answers a call of the store, faults apart. -/
def onStore (c : StoreCall) (w : World) : Except Error c.Result × World :=
  let (answer, store) := w.store.perform storeTime c
  (answer, { w with store := store })

/-- Answers a call of the store, or makes it fail as planned. -/
def onFaultyStore (c : StoreCall) (w : World) : Except Error c.Result × World :=
  let (method, subject) := Fault.ofStoreCall c
  let (fault, faults) := Fault.strike method subject w.storeFaults
  let w := { w with storeFaults := faults }
  match fault with
  | some e => (.error e, w)
  | none => w.onStore c

/-- Acts on the feed of a subscription. -/
def onWatch {α : Type} (id : WatchId) (f : Feed Change → α × Feed Change) (w : World) : α × World :=
  let (a, store) := w.store.modifyFeed id f
  (a, { w with store := store })

/-! ### Locks and feeds -/

/-- The queue of a lock. -/
def lock (w : World) : LockName → Lock
  | .passes => w.passLock
  | .pulls name => (w.host name).pullLock

/-- Changes the queue of a lock. -/
def setLock (w : World) (l : Lock) : LockName → World
  | .passes => { w with passLock := l }
  | .pulls name => w.modifyHost name fun h => { h with pullLock := l }

/-- Opens a feed of manifest lists, which buffers one. So a writer waits as soon as a list is not
taken. -/
def openFeed (w : World) : FeedId × World :=
  (w.feeds.length, { w with feeds := w.feeds ++ [{ capacity := 1 }] })

/-- A feed of manifest lists. -/
def feed (w : World) (id : FeedId) : Feed (List Manifest) := w.feeds[id]?.getD .finished

/-- Acts on a feed of manifest lists. -/
def onFeed {α : Type} (id : FeedId) (f : Feed (List Manifest) → α × Feed (List Manifest))
    (w : World) : α × World :=
  let (a, feed) := f (w.feed id)
  (a, { w with feeds := w.feeds.set id feed })

/-! ### Draws -/

/-- The suffix of a draw. The suffixes of all draws differ and look like random numbers. -/
def suffixOf (draw : Nat) : UInt32 := UInt32.ofNat (draw * 0x9E3779B1)

/-! ### Calls -/

/-- What a reader found, unless it goes on waiting. -/
def awaited {α : Type} (now : Moment) (limit : Option Moment) :
    Received α → Option (Received α)
  | .nothing =>
    match limit with
    | some limit => if limit ≤ now then some .nothing else none
    | none => none
  | found => some found

/-- Answers the call of a program, or finds that it has to wait. A call that has to wait changes
nothing but the queue of a lock, so it can be made again until it is answered. -/
def attempt (ticket : TicketId) : (c : WorldCall) → World → Option c.Answer × World
  | .store c, w =>
    let (answer, w) := w.onFaultyStore c
    (some answer, w)
  | .engine name c, w =>
    let (answer, h) := onEngine c (w.host name)
    (some answer, w.modifyHost name fun _ => h)
  | .beginPull name, w =>
    let h := w.host name
    let pulling := h.pulling + 1
    (some (w.clock + h.pullDelay.toNanos),
      w.modifyHost name fun _ =>
        { h with pulling := pulling, mostPulls := max h.mostPulls pulling })
  | .endPull name, w => (some (), w.modifyHost name fun h => { h with pulling := h.pulling - 1 })
  | .turn, w => (some w.turns, { w with turns := w.turns + 1 })
  | .pick bound, w =>
    let (picked, generator) := w.generator.pick bound
    (some picked, { w with generator := generator })
  | .freshId, w => (some ("r" ++ toString (w.draws + 1)), { w with draws := w.draws + 1 })
  | .suffix, w => (some (suffixOf (w.suffixes + 1)), { w with suffixes := w.suffixes + 1 })
  | .timestamp, w => (some (0 : Int64), w)
  | .now, w => (some w.clock, w)
  | .waitUntil moment, w => (if moment ≤ w.clock then some () else none, w)
  | .acquire name, w =>
    let queue := Lock.join (w.lock name) ticket
    (if queue.head? = some ticket then some () else none, w.setLock queue name)
  | .release name, w => (some (), w.setLock (w.lock name).tail name)
  | .receiveChange id limit, w =>
    let (found, after) := w.onWatch id Feed.receive
    (awaited w.clock limit found, after)
  | .stopWatch id, w => (some (), (w.onWatch id fun feed => ((), feed.stop)).2)
  | .send id manifests, w =>
    match w.onFeed id (Feed.offer · manifests) with
    | (.taken, w) => (some true, w)
    | (.closed, w) => (some false, w)
    | (.full, w) => (none, w)
  | .receiveList id limit, w =>
    let (found, after) := w.onFeed id Feed.receive
    (awaited w.clock (some limit) found, after)
  | .note n, w =>
    let (fault, faults) := match n with
      | .create _ => (none, w.noteFaults)
      | .delete task => Fault.strike "delete_task" task w.noteFaults
    (some (match fault with
      | some e => .error e
      | none => .ok ()), { w with notes := w.notes ++ [n], noteFaults := faults })
  | .log name manifests, w =>
    (some (), w.modifyHost name fun h => { h with log := h.log ++ [(w.clock, manifests)] })

/-- The moment until which a call waits at most. -/
def limit? : WorldCall → Option Moment
  | .waitUntil moment => some moment
  | .receiveChange _ limit => limit
  | .receiveList _ limit => some limit
  | _ => none

end World

end ControlPlane.Rehearsal
