import ControlPlane.Node.Pass
import ControlPlane.Node.SyncLoop
import ControlPlane.Node.Watcher
import ControlPlane.Rehearsal.World
import ControlPlane.Replication.Control
import ControlPlane.Replication.Manager

/-!
# Components in the world of a rehearsal

Every component asks its partners through an interface of its own. Here each of these interfaces is
carried out by the calls of the world: the store and the engines as they are, waiting by the clock,
and calls of the manager on replicas by a cluster client or by writing them down.
-/

namespace ControlPlane.Rehearsal

/-- Work in the world. -/
abbrev WorldProgram (α : Type) := Program worldCalls α

namespace WorldProgram

/-- One call. -/
def ask (c : WorldCall) : WorldProgram c.Answer := Program.ask (I := worldCalls) c

/-- The moment that is so far ahead of the time that the clock shows now. -/
def ahead (d : Span) : WorldProgram Moment := do
  let now : Moment ← ask .now
  return now + d.toNanos

/-- Waits: the moment is computed first, and then waited for, so what else happens in between does
not prolong it. -/
def wait (d : Span) : WorldProgram Unit := do
  let moment ← ahead d
  ask (.waitUntil moment)

/-- Carries out a call of a store. -/
def ofStore (c : StoreCall) : WorldProgram (Except Error c.Result) := ask (.store c)

/-- Carries out a call on the cluster. -/
def ofCluster : (c : ClusterCall) → WorldProgram c.Answer
  | .store c => ask (.store c)
  | .turn => ask .turn
  | .pick bound => ask (.pick bound)

/-- Carries out a call that controls replicas. Only the pause depends on the settings. -/
def ofControl (s : ManagerSettings) : (c : ControlCall) → WorldProgram c.Answer
  | .cluster c => ofCluster c
  | .freshId => ask .freshId
  | .pause => wait s.creationDelay

/-- Carries out a call of an engine. A pull takes its time, and holds whatever lock its caller
holds. -/
def ofEngine (host : String) (c : Engine.Call) : WorldProgram (Except Error c.Result) := do
  let answer : Except Error c.Result ← ask (.engine host c)
  match c, answer with
  | .pull _, .ok _ => do
    let moment : Moment ← ask (.beginPull host)
    let _ ← ask (.waitUntil moment)
    let _ ← ask (.endPull host)
  | _, _ => pure ()
  return answer

/-- Carries out a call of a node agent at work. Each host has a lock of its own on its pulls. -/
def ofNode (host : String) : (c : NodeCall) → WorldProgram c.Answer
  | .engine c => ofEngine host c
  | .store c => ask (.store c)
  | .acquire => ask (.acquire (.pulls host))
  | .release => ask (.release (.pulls host))
  | .suffix => ask .suffix
  | .timestamp => ask .timestamp

/-- Carries out a call of a watcher that hands lists on to a feed. -/
def ofWatcher (feed : FeedId) : (c : WatcherCall) → WorldProgram c.Answer
  | .store c => ask (.store c)
  | .send manifests => ask (.send feed manifests)
  | .wait d => wait d
  | .ahead d => ahead d
  | .receive w limit => ask (.receiveChange w (some limit))
  | .stop w => ask (.stopWatch w)

/-- Carries out a call of a sync loop that takes lists from a feed. -/
def ofLoop (feed : FeedId) (sync : List Manifest → WorldProgram (Except Error Unit)) :
    (c : LoopCall) → WorldProgram c.Answer
  | .ahead d => ahead d
  | .receive limit => ask (.receiveList feed limit)
  | .waitUntil moment => ask (.waitUntil moment)
  | .sync manifests => sync manifests

end WorldProgram

open WorldProgram

/-- A replication manager in a rehearsal. -/
structure Manager where
  settings : ManagerSettings := {}
  /-- Whether replicas are only written down. -/
  recordOnly : Bool := false
deriving Inhabited

namespace Manager

/-- The cluster that the manager works on, as its settings describe it. -/
def cluster (m : Manager) : Cluster :=
  { machines := m.settings.machines
    policy := m.settings.scheduler
    capacity := m.settings.capacity }

/-- Carries out a call of a replication pass on the cluster. -/
def carryOut (m : Manager) (c : ReplicaCall) : WorldProgram c.Answer :=
  (Replication.control m.cluster c).expand (ofControl m.settings)

/-- Writes down a call of a replication pass that would change something. Listings and pauses are
carried out as they are. -/
def writeDown (m : Manager) : (c : ReplicaCall) → WorldProgram c.Answer
  | .create controller => do
    let _ ← ask (.note (.create controller.id))
    return ()
  | .delete id => ask (.note (.delete id))
  | c => m.carryOut c

/-- Carries out a call of a replication pass, or writes it down. -/
def ofReplica (m : Manager) (c : ReplicaCall) : WorldProgram c.Answer :=
  if m.recordOnly then m.writeDown c else m.carryOut c

/-- Carries out a call of the manager. -/
def ofManager (m : Manager) : (c : ManagerCall) → WorldProgram c.Answer
  | .store c => ask (.store c)
  | .replica c => m.ofReplica c
  | .acquire => ask (.acquire .passes)
  | .release => ask (.release .passes)
  | .wait d => wait d
  | .receive w => do
    let found : Received Change ← ask (.receiveChange w none)
    match found with
    | .item change => return some change
    | _ => return none

end Manager

end ControlPlane.Rehearsal
