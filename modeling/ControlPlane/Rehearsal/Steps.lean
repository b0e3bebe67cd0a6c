import ControlPlane.Rehearsal.Schedule

/-!
# Steps of a rehearsal

What can be done between the moments at which everything waits: calls of the store and work on the
cluster, changes to the world, and looks at what has happened. Every step ends when the background
waits again.

Whatever is drawn at random elsewhere is shown by its number: the suffix in the name of a new
container is shown as a hash sign and the number of its creation.
-/

namespace ControlPlane.Rehearsal

open WorldProgram

variable {α : Type}

/-- A rehearsal with a manager, in which nothing has happened. -/
def new (manager : Manager) : Rehearsal := { manager := manager }

/-- Lets the background go on until all of it waits, as it does behind every step. -/
def rest (r : Rehearsal) : Rehearsal := r.settle patience

/-- Acts on the world, and lets the background see what has changed. -/
def act (r : Rehearsal) (f : World → α × World) : α × Rehearsal :=
  let (a, w) := f r.world
  (a, rest { r with world := w })

/-- Changes the world. -/
def change (r : Rehearsal) (f : World → World) : Rehearsal := rest { r with world := f r.world }

/-- Carries out work that may fail. Work that waits for something that never comes fails. -/
def work (r : Rehearsal) (w : WorldProgram (Except Error α)) : Except Error α × Rehearsal :=
  match r.perform w with
  | (some result, r) => (result, r)
  | (none, r) => (.error (.store "the work never ends"), r)

/-- Carries out work on the store. -/
def onStore (r : Rehearsal) (w : StoreWork α) : Except Error α × Rehearsal :=
  r.work (w.run.expand WorldProgram.ofStore)

/-- Carries out work on the cluster. -/
def onCluster (r : Rehearsal) (w : ClusterWork α) : Except Error α × Rehearsal :=
  r.work (w.run.expand WorldProgram.ofCluster)

/-- The milliseconds between two states of a rehearsal. -/
def elapsed (earlier later : Rehearsal) : Nat :=
  (later.world.clock - earlier.world.clock) / 1000000

/-! ### The store -/

/-- Everything in the store, whatever is planned to fail, so that looking does not use up a fault.
-/
def dump (r : Rehearsal) : List Node × Rehearsal :=
  let (listed, r) := r.act (World.onStore (.list "/" true))
  (listed.toOption.getD [], r)

/-- Leaves what is read under a name. -/
def leave (r : Rehearsal) (name : String) : Rehearsal :=
  match r.watches.get? name with
  | some (.subscription w) => r.change fun world => (world.onWatch w fun feed => ((), feed.stop)).2
  | some (.bare feed) => { r with watches := r.watches.insert name (.bare feed.stop) }
  | none => r

/-- Keeps something to read from under a name, and leaves what was there. -/
def keep (r : Rehearsal) (name : String) (s : Source) : Rehearsal :=
  let r := r.leave name
  { r with watches := r.watches.insert name s }

/-- Opens a watch under a name. -/
def openWatch (r : Rehearsal) (name key : String) (recursive : Bool) :
    Except Error Unit × Rehearsal :=
  match r.work (ask (.store (.watch key recursive))) with
  | (.ok w, r) => (.ok (), r.keep name (.subscription w))
  | (.error e, r) => (.error e, r)

/-- Everything that can be received now under a name, and whether nothing can come any more. -/
def receive (r : Rehearsal) (name : String) : (List Change × Bool) × Rehearsal :=
  match r.watches.get? name with
  | some (.subscription w) => r.act (World.onWatch w Feed.drain)
  | some (.bare feed) =>
    let (found, feed) := feed.drain
    (found, { r with watches := r.watches.insert name (.bare feed) })
  | none => (([], true), r)

/-- Lets go of all subscriptions, as a lost connection does. -/
def closeWatches (r : Rehearsal) : Rehearsal :=
  r.change fun w => { w with store := w.store.closeWatches }

/-- Opens a feed to which no store writes under a name. -/
def openBare (r : Rehearsal) (name : String) (capacity : Nat) (withSignal : Bool) : Rehearsal :=
  let signal : StopSignal := if withSignal then .armed else .absent
  r.keep name (.bare { capacity := capacity, signal := signal })

/-- Acts on the feed under a name to which no store writes. -/
def onBare (r : Rehearsal) (name : String) (f : Feed Change → α × Feed Change) : α × Rehearsal :=
  let feed := match r.watches.get? name with
    | some (.bare feed) => feed
    | _ => .finished
  let (a, feed) := f feed
  (a, { r with watches := r.watches.insert name (.bare feed) })

/-- Plans a fault of the store. -/
def addFault (r : Rehearsal) (f : Fault) : Rehearsal :=
  r.change fun w => { w with storeFaults := w.storeFaults ++ [f] }

/-- Gives up all planned faults of the store. -/
def clearFaults (r : Rehearsal) : Rehearsal := r.change fun w => { w with storeFaults := [] }

/-! ### The manager -/

/-- A pass for a controller. -/
def pass (m : Manager) (c : Controller) : WorldProgram (Except Error Replication.Outcome) :=
  (Replication.reconcile c).expand m.ofManager

/-- A pass for one controller, with all the time that its pauses take. -/
def sync (r : Rehearsal) (c : Controller) : Except Error Replication.Outcome × Rehearsal :=
  r.work (pass r.manager c)

/-- Passes for controllers that are started together. Only the lock on passes keeps them apart. -/
def syncTogether (r : Rehearsal) (controllers : List Controller) :
    List (Except Error Replication.Outcome) × Rehearsal :=
  let (results, r) := r.performAll (controllers.map (pass r.manager))
  (results.map fun result => result.getD (.error (.store "the work never ends")), r)

/-- Passes for all stored controllers. -/
def syncAll (r : Rehearsal) : Rehearsal :=
  (r.perform (Replication.reconcileAll.expand r.manager.ofManager)).2

/-- Starts a process in the background. -/
def launch (r : Rehearsal) (p : Process) : Rehearsal := rest (r.start p).2

/-- Starts to follow the changes of controllers. -/
def startFollowing (r : Rehearsal) : Rehearsal := r.launch (.following r.manager .subscribing)

/-- Starts the scan. -/
def startScan (r : Rehearsal) : Rehearsal := r.launch (.scan r.manager)

/-- Starts both drivers of the manager, the scan first. -/
def startManager (r : Rehearsal) : Rehearsal :=
  rest ((r.start (.scan r.manager)).2.start (.following r.manager .subscribing)).2

/-- Lets time pass, and everything happen that is due meanwhile. -/
def advance (r : Rehearsal) (d : Span) : Rehearsal := (r.perform (wait d)).2

/-- What was written down of replication passes since the last look. -/
def takeNotes (r : Rehearsal) : List Note × Rehearsal :=
  r.act fun w => (w.notes, { w with notes := [] })

/-- Plans a fault of the calls that are only written down. -/
def addNoteFault (r : Rehearsal) (f : Fault) : Rehearsal :=
  r.change fun w => { w with noteFaults := w.noteFaults ++ [f] }

/-- Gives up all planned faults of the calls that are only written down. -/
def clearNoteFaults (r : Rehearsal) : Rehearsal := r.change fun w => { w with noteFaults := [] }

/-! ### Hosts and their engines -/

/-- Makes a host. -/
def addHost (r : Rehearsal) (settings : NodeSettings) : Rehearsal :=
  r.change fun w => w.modifyHost settings.hostname fun _ => { settings := settings }

/-- Changes a host. -/
def changeHost (r : Rehearsal) (name : String) (f : Host → Host) : Rehearsal :=
  r.change fun w => w.modifyHost name f

/-- Puts a container into the engine of a host. -/
def addContainer (r : Rehearsal) (name : String) (held : Engine.Held) : Rehearsal :=
  r.changeHost name fun h =>
    { h with engine := { h.engine with containers := h.engine.containers ++ [held] } }

/-- Changes a container of the engine of a host. -/
def editContainer (r : Rehearsal) (name id : String) (running listed : Option Bool) : Rehearsal :=
  r.changeHost name fun h =>
    { h with
      engine := h.engine.modify id fun held =>
        { held with running := running.getD held.running, listed := listed.getD held.listed } }

/-- The name of a container as it is shown: with the number of its creation for its suffix, so that
what is shown does not depend on chance. -/
def shownName (h : Host) (name : String) : String :=
  match h.named.findIdx? fun given => name == given || name == "/" ++ given with
  | some k =>
    let parts := splitText ContainerName.separator name.toList
    let shown := parts.dropLast ++ ['#' :: Nat.toDigits 10 (k + 1)]
    String.ofList (ContainerName.separator.intercalate shown)
  | none => name

/-- The containers of the engine of a host as they are shown. -/
def containers (r : Rehearsal) (name : String) : List Engine.Held :=
  let h := r.world.host name
  h.engine.containers.map fun held => { held with name := shownName h held.name }

/-- A call of an engine as it is shown. -/
def shownCall (h : Host) : Engine.Call → Engine.Call
  | .create spec => .create { spec with name := shownName h spec.name }
  | c => c

/-- The calls of the engine of a host since the last look, as they are shown. -/
def takeCalls (r : Rehearsal) (name : String) : List Engine.Call × Rehearsal :=
  let h := r.world.host name
  (h.calls.map (shownCall h), r.changeHost name fun h => { h with calls := [] })

/-- The manifest list of a host, read from the store. -/
def fetch (host : String) : WorldProgram (Except Error (List Manifest)) :=
  (Registry.manifests host).run.expand WorldProgram.ofStore

/-- A pass on a host. -/
def hostPass (r : Rehearsal) (name : String) (manifests : List Manifest) :
    WorldProgram (Except Error Unit) :=
  (Node.pass (r.world.host name).settings manifests).run.expand (ofNode name)

/-- A pass on a host for a list of manifests. -/
def syncManifests (r : Rehearsal) (name : String) (manifests : List Manifest) :
    Except Error Unit × Rehearsal :=
  r.work (r.hostPass name manifests)

/-- Passes on a host that are started together. They share the lock on its pulls and nothing else.
-/
def syncManifestsTogether (r : Rehearsal) (name : String) (lists : List (List Manifest)) :
    List (Except Error Unit) × Rehearsal :=
  let (results, r) := r.performAll (lists.map (r.hostPass name))
  (results.map fun result => result.getD (.error (.store "the work never ends")), r)

/-- A pass on a host for the list that the store has for it; gives the ids of the list. -/
def converge (r : Rehearsal) (name : String) : Except Error (List String) × Rehearsal :=
  r.work (ExceptT.run do
    let manifests : List Manifest ← ExceptT.mk (fetch name)
    ExceptT.mk (r.hostPass name manifests)
    return manifests.map Manifest.id)

/-! ### Programs of a host -/

/-- The feed on which the watcher of a host hands lists on. -/
def updatesFeed (r : Rehearsal) (name : String) : FeedId :=
  (((r.world.host name).updates.map Prod.fst).getD r.world.feeds.length)

/-- Takes no more lists from the watcher of a host. -/
def closeUpdates (r : Rehearsal) (name : String) : Rehearsal :=
  let feed := r.updatesFeed name
  r.change fun w => (w.onFeed feed fun feed => ((), feed.stop)).2

/-- Starts the watcher of a host, whose lists are taken by steps. The lists of an earlier one are
not taken any more. -/
def startWatcher (r : Rehearsal) (name : String) : Rehearsal :=
  let r := r.closeUpdates name
  let s := (r.world.host name).settings
  let (feed, w) := r.world.openFeed
  let (ticket, r) := { r with world := w }.start (.watcher s feed .start)
  r.changeHost name fun h => { h with updates := some (feed, ticket) }

/-- Takes lists that a watcher hands on, until there is none any more or `limit` are taken. -/
def takeUpdates (r : Rehearsal) (feed : FeedId) : (limit : Nat) → List (List Manifest) × Rehearsal
  | 0 => ([], r)
  | limit + 1 =>
    match r.act (World.onFeed feed Feed.receive) with
    | (.item manifests, r) =>
      let (lists, r) := r.takeUpdates feed limit
      (manifests :: lists, r)
    | (_, r) => ([], r)

/-- Takes the lists that the watcher of a host hands on. -/
def updates (r : Rehearsal) (name : String) (limit : Option Nat) :
    List (List Manifest) × Rehearsal :=
  r.takeUpdates (r.updatesFeed name) (limit.getD patience)

/-- Whether the watcher of a host has ended. -/
def watcherDone (r : Rehearsal) (name : String) : Bool :=
  match (r.world.host name).updates with
  | some (_, ticket) => !r.tickets.any (·.id == ticket)
  | none => true

/-- The feed that the sync loop of a host takes lists from. -/
def loopFeed (r : Rehearsal) (name : String) : FeedId :=
  ((r.world.host name).loop.map Prod.fst).getD r.world.feeds.length

/-- Hands no more lists to the sync loop of a host. -/
def loopClose (r : Rehearsal) (name : String) : Rehearsal :=
  let feed := r.loopFeed name
  r.change fun w => (w.onFeed feed fun feed => ((), feed.detach)).2

/-- Starts a sync loop on a host that writes the lists down. No more lists are handed to an earlier
one. -/
def startLoop (r : Rehearsal) (name : String) (fails : Bool) : Rehearsal :=
  let r := r.loopClose name
  let s := (r.world.host name).settings
  let (feed, w) := r.world.openFeed
  let r := (start { r with world := w } (.syncLoop name s feed (.record fails) {})).2
  r.changeHost name fun h => { h with loop := some (feed, r.world.clock), log := [] }

/-- Hands a list to the sync loop of a host; tells whether it is taken. -/
def loopSend (r : Rehearsal) (name : String) (manifests : List Manifest) : Bool × Rehearsal :=
  let (taken, r) := r.perform (ask (.send (r.loopFeed name) manifests))
  (taken.getD false, r)

/-- The lists that the sync loop of a host was given since the last look, each with the milliseconds
since the start of the loop. -/
def takeLog (r : Rehearsal) (name : String) : List (Nat × List Manifest) × Rehearsal :=
  let h := r.world.host name
  let start := (h.loop.map Prod.snd).getD 0
  (h.log.map fun (moment, manifests) => ((moment - start) / 1000000, manifests),
    r.changeHost name fun h => { h with log := [] })

/-- Starts the node agent of a host: its sync loop and its watcher, if its engine is there. -/
def startAgent (r : Rehearsal) (name : String) : Except Error Unit × Rehearsal :=
  match r.work (Node.reachEngine.run.expand (ofNode name)) with
  | (.error e, r) => (.error e, r)
  | (.ok (), r) =>
    let s := (r.world.host name).settings
    let (feed, w) := r.world.openFeed
    let r := (start { r with world := w } (.syncLoop name s feed .converge {})).2
    (.ok (), r.launch (.watcher s feed .start))

end ControlPlane.Rehearsal
