import ControlPlane.Controller
import ControlPlane.Store.Call

/-!
# Replication passes

One pass compares the live tasks that a controller selects with the number that it wants, and makes
the difference up: it creates the replicas that are missing, with a pause between two creations, or
deletes the surplus from the head of the list. What a pass asks for is an interface of its own, so
that how replicas come and go can be chosen freely.
-/

namespace ControlPlane

/-- The calls of a replication pass. They are about replicas and not about the store, so that the
arithmetic of a pass can be told apart from what becomes of its calls. -/
inductive ReplicaCall where
  /-- The tasks that a selector selects, with those that have ended. -/
  | list (selector : Labels)
  /-- A new replica. A failure is left to the next pass, so there is no answer to be heeded. -/
  | create (c : Controller)
  /-- The end of a task, which may fail. -/
  | delete (id : String)
  /-- The pause between two creations. -/
  | pause
deriving DecidableEq, Inhabited

/-- The answer to a call. Only listings and deletions can fail. -/
def ReplicaCall.Answer : ReplicaCall → Type
  | list _ => Except Error (List Task)
  | create _ => Unit
  | delete _ => Except Error Unit
  | pause => Unit

/-- The interface of a replication pass, which the cluster or a notebook may serve. -/
def replicaCalls : Interface where
  Call := ReplicaCall
  Answer := ReplicaCall.Answer

namespace Replication

/-- What a pass did: the replicas that it asked for, whether or not they came to be, and the tasks
that it deleted. -/
structure Outcome where
  created : Nat := 0
  deleted : Nat := 0
deriving DecidableEq, Inhabited

/-- Creates a number of replicas with pauses between them. There is none before the first and none
behind the last, so a pass that creates a single replica takes no time of its own. -/
def createMissing (c : Controller) : (missing : Nat) → Program replicaCalls Unit
  | 0 => return ()
  | 1 => Program.ask (I := replicaCalls) (.create c)
  | missing + 2 => do
    let _ ← Program.ask (I := replicaCalls) (.create c)
    let _ ← Program.ask (I := replicaCalls) .pause
    createMissing c (missing + 1)

/-- Deletes tasks in order, up to the first that cannot be deleted. The others stay until the next
pass, which counts again. -/
def deleteSurplus : List Task → Work replicaCalls Unit
  | [] => return ()
  | t :: surplus => do
    ExceptT.mk (Program.ask (I := replicaCalls) (.delete t.id))
    deleteSurplus surplus

/-- One pass for a controller. Tasks that have ended do not count, and are not deleted either. Of
the two differences at most one is not zero, so a pass that creates never deletes. The outcome is
only told if nothing has failed. -/
def pass (c : Controller) : Work replicaCalls Outcome := do
  let selected : List Task ←
    ExceptT.mk (Program.ask (I := replicaCalls) (.list c.desiredState.replicaSelector))
  let active := selected.filter fun t => !t.isTerminated
  let wanted := c.desiredState.replicas.toNat
  let missing := wanted - active.length
  let surplus := active.length - wanted
  ExceptT.lift (createMissing c missing)
  deleteSurplus (active.take surplus)
  return { created := missing, deleted := surplus }

end Replication

end ControlPlane
