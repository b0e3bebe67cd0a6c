import ControlPlane.Placement

/-!
# The cluster client

What a controller may ask of the cluster. The client serves it from the registry; new tasks are
placed on a machine on their way in.

A cluster places tasks by its policy. Since nothing else depends on how a machine is chosen, the
operation that does it takes any scheduler.
-/

namespace ControlPlane

/-- How a machine is chosen for a new task. It may look at the store and use whatever else work on
the cluster has, and it may fail; it does not bind the task. -/
abbrev Scheduler := Task → ClusterWork String

/-- A cluster as a client sees it: the machines that it works with and what decides where tasks go.
Machines have no say in it, and are known by their names only. -/
structure Cluster where
  /-- The machines, in the order in which they are scanned. A task on a machine that is not among
  them is not found. -/
  machines : List String := []
  policy : Policy := .firstFit
  /-- How many tasks a machine takes, whatever they need. Only the policy that looks for room heeds
  it. -/
  capacity : UInt64 := 10
deriving DecidableEq, Inhabited

namespace Cluster

variable (c : Cluster)

/-- The machine for a new task, by the policy of the cluster. -/
def place : Scheduler := fun t =>
  Placement.choose c.policy c.capacity c.machines t

/-- The tasks with labels that a selector selects, on all machines of the cluster. -/
def listTasks (selector : Labels) : ClusterWork (List Task) :=
  .ofStore (Registry.tasks c.machines selector)

/-- The task of an id, on whichever machine of the cluster it is bound. -/
def getTask (id : String) : ClusterWork Task :=
  .ofStore (Registry.task c.machines id)

/-- Places a task by a scheduler and binds it, and gives it back as it is stored. Nothing is written
if no machine is chosen; what the choice was made by may have changed when the task is bound, since
nothing is held in between. -/
def createTaskBy (schedule : Scheduler) (t : Task) : ClusterWork Task := do
  let machine ← schedule t
  .ofStore (Registry.createTask c.machines machine t)
  return t.boundTo machine

/-- Places a task by the policy of the cluster and binds it, and gives it back as it is stored. -/
def createTask (t : Task) : ClusterWork Task :=
  c.createTaskBy c.place t

/-- Changes a task, and gives it back. The registry does not offer it, so it always fails. -/
def updateTask (t : Task) : ClusterWork Task := do
  .ofStore (Registry.updateTask t)
  return t

/-- Unbinds a task, from whichever machine of the cluster it is bound to. -/
def deleteTask (id : String) : ClusterWork Unit :=
  .ofStore (Registry.deleteTask c.machines id)

/-- The controller of an id. Controllers belong to no machine, so the machines of the cluster do not
matter. -/
def getController (id : String) : ClusterWork Controller :=
  .ofStore (Registry.controller id)

/-- Writes a controller, in the place of one with the same id, and gives it back. -/
def setController (controller : Controller) : ClusterWork Controller := do
  .ofStore (Registry.setController controller)
  return controller

/-- Removes a controller, and leaves its tasks alone. -/
def deleteController (id : String) : ClusterWork Unit :=
  .ofStore (Registry.deleteController id)

end Cluster

end ControlPlane
