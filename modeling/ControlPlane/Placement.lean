import ControlPlane.Placement.Policy
import ControlPlane.Registry

/-!
# Placement

How a machine is chosen for a new task. A policy only chooses; binding the task to the machine is
the work of the registry. Every policy fails with the same error when there is no machine to choose.

Two policies need something besides the store: a turn from a counter that is shared by all
placements, or a random number. `ClusterCall` adds both to the calls of the store.
-/

namespace ControlPlane

/-- The calls of work on the cluster: those of the store, and what two of the policies need. -/
inductive ClusterCall where
  | store (c : StoreCall)
  /-- The number of rotations made before this one. Asking for it counts as a rotation, also if
  nothing comes of the placement. -/
  | turn
  /-- A random number that is at most `bound`. -/
  | pick (bound : Nat)
deriving DecidableEq, Inhabited

/-- The answer to a call. Only the store can fail. -/
def ClusterCall.Answer : ClusterCall → Type
  | store c => Except Error c.Result
  | turn => UInt64
  | pick bound => Fin (bound + 1)

/-- The interface of work on the cluster. -/
def clusterCalls : Interface where
  Call := ClusterCall
  Answer := ClusterCall.Answer

/-- Work on the cluster that may fail. -/
abbrev ClusterWork (α : Type) := Work clusterCalls α

namespace ClusterWork

/-- One call that always has an answer, so that no failure has to be thought of. -/
def call (c : ClusterCall) : ClusterWork c.Answer :=
  ExceptT.lift (Program.ask (I := clusterCalls) c)

/-- Work that only uses the store. What is shown of it alone holds of it as a part of work on the
cluster. -/
def ofStore {α : Type} (w : StoreWork α) : ClusterWork α :=
  w.through fun c => Program.ask (I := clusterCalls) (.store c)

end ClusterWork

namespace Placement

/-- Whether a machine with the tasks `bound` takes a task that needs the host ports `wanted`. Every
task that is bound counts, also one that has ended, since its document still holds the place; a task
without host ports is only kept out by the number. -/
def fits (capacity : UInt64) (wanted : List UInt16) (bound : List Task) : Bool :=
  bound.length < capacity.toNat &&
    !(bound.flatMap Task.hostPorts).any fun port => wanted.contains port

/-- The first machine that takes a task with the host ports `wanted`. The machines are listed one
after the other and only as far as necessary; one that cannot be listed ends the search with its
failure, and is not passed over. -/
def firstFit? (capacity : UInt64) (wanted : List UInt16) : List String → StoreWork (Option String)
  | [] => return none
  | machine :: machines => do
    if fits capacity wanted (← Registry.machineTasks machine) then return some machine
    else firstFit? capacity wanted machines

/-- The machine whose turn it is, counted from the first machine. With one more rotation it is the
next one, and behind the last it is the first again. -/
def inTurn (turn : UInt64) (first : String) (others : List String) : String :=
  (first :: others).get ⟨turn.toNat % (others.length + 1), Nat.mod_lt _ (Nat.succ_pos _)⟩

/-- The machine that a policy chooses for a task. Without machines all policies fail in the same
way, and the two that need a turn or a number do not ask for one then. Only the search for room
looks at the task and at what is bound already. -/
def choose (policy : Policy) (capacity : UInt64) (machines : List String) (t : Task) :
    ClusterWork String := do
  match policy, machines with
  | .firstFit, machines =>
    match ← ClusterWork.ofStore (firstFit? capacity t.hostPorts machines) with
    | some machine => return machine
    | none => throw (.noMachine t.id)
  | _, [] => throw (.noMachine t.id)
  | .roundRobin, first :: others => return inTurn (← ClusterWork.call .turn) first others
  | .random, first :: others =>
    let picked : Fin (others.length + 1) ← ClusterWork.call (.pick others.length)
    return (first :: others).get picked

end Placement

end ControlPlane
