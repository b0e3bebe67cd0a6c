import ControlPlane.Registry
import ControlPlane.Replication.Pass
import ControlPlane.Settings

/-!
# The replication manager

The manager makes passes for all controllers. Two drivers start them: a scan of all controllers at a
fixed interval, and a subscription to the directory of the controllers, which answers to single
changes. The drivers share one lock, so that passes never interleave. A scan may still make a pass
for a controller that was changed meanwhile; the next scan makes up for it.

The drivers never end. Each is a stage and one round of work that leads to the next stage.
-/

namespace ControlPlane

/-- The calls of the replication manager: those of its passes, those of the store, which it reads
and subscribes to, and those by which its two drivers get on with each other and with time. -/
inductive ManagerCall where
  | store (c : StoreCall)
  | replica (c : ReplicaCall)
  /-- Takes the lock on passes, in turn. Whoever has asked first is served first. -/
  | acquire
  /-- Gives the lock back. -/
  | release
  /-- Waits. The scan waits between two rounds, and the driver that follows changes before it
  subscribes again. -/
  | wait (d : Span)
  /-- Waits for the next change of a subscription, as long as it takes; none if it has ended. -/
  | receive (w : WatchId)
deriving DecidableEq, Inhabited

/-- The answer to a call. -/
def ManagerCall.Answer : ManagerCall → Type
  | store c => Except Error c.Result
  | replica c => c.Answer
  | acquire => Unit
  | release => Unit
  | wait _ => Unit
  | receive _ => Option Change

/-- The interface of the replication manager. -/
def managerCalls : Interface where
  Call := ManagerCall
  Answer := ManagerCall.Answer

namespace Replication

/-- The controller that a change carries. Only a key that was set carries one: nothing is left to be
done for a controller that is gone, and its tasks are not touched. A text that cannot be read is an
error, which is reported and passed over. -/
def controllerOf (c : Change) : Except Error (Option Controller) :=
  match c.action with
  | .set =>
    match (Json.ofText? c.node.value).bind Controller.read with
    | some controller => .ok (some controller)
    | none => .error (.malformed c.node.key)
  | _ => .ok none

/-- A pass for one controller under the lock. The lock is held from before the listing until the
last deletion, pauses included, and it is given back whatever the pass comes to. -/
def reconcile (c : Controller) : Program managerCalls (Except Error Outcome) := do
  let _ ← Program.ask (I := managerCalls) .acquire
  let outcome ← (pass c).run.expand fun call => Program.ask (I := managerCalls) (.replica call)
  let _ ← Program.ask (I := managerCalls) .release
  return outcome

/-- Passes for a list of controllers in order, whatever becomes of each. The lock is given back
between two of them, so the other driver may come in between. -/
def reconcileEach : List Controller → Program managerCalls Unit
  | [] => return ()
  | c :: controllers => do
    let _ ← reconcile c
    reconcileEach controllers

/-- Passes for all stored controllers; none if they cannot be listed. The controllers are those of
the listing, also for passes that are made long after it. -/
def reconcileAll : Program managerCalls Unit := do
  let listed ← Registry.controllers.run.expand fun call =>
    Program.ask (I := managerCalls) (.store call)
  match listed with
  | .ok controllers => reconcileEach controllers
  | .error _ => return ()

/-- One round of the scan. It scans first and waits then, so that the first scan is made at once;
the time that the scan takes comes on top of the wait. -/
def scanRound (s : ManagerSettings) : Program managerCalls Unit := do
  reconcileAll
  Program.ask (I := managerCalls) (.wait s.syncInterval)

/-- The stages of the driver that follows the changes of controllers. Nothing else is remembered
from one round to the next. -/
inductive Following where
  /-- There is no subscription, at the beginning and when one has ended. -/
  | subscribing
  /-- Changes of a subscription are awaited. -/
  | receiving (w : WatchId)
deriving DecidableEq, Inhabited

/-- One round of following changes: opening a subscription, or dealing with one change. A
subscription that cannot be opened and one that has ended lead to the same wait. Changes made
between two subscriptions are not seen by this driver; the scan makes up for them. -/
def Following.round (s : ManagerSettings) : Following → Program managerCalls Following
  | subscribing => do
    let opened : Except Error WatchId ←
      Program.ask (I := managerCalls) (.store (.watch Keys.controllersDir true))
    match opened with
    | .ok w => return receiving w
    | .error _ => do
      let _ ← Program.ask (I := managerCalls) (.wait s.watchRetryInterval)
      return subscribing
  | receiving w => do
    let change : Option Change ← Program.ask (I := managerCalls) (.receive w)
    match change with
    | some change => do
      if let .ok (some controller) := controllerOf change then
        let _ ← reconcile controller
      return receiving w
    | none => do
      let _ ← Program.ask (I := managerCalls) (.wait s.watchRetryInterval)
      return subscribing

end Replication

end ControlPlane
