import ControlPlane.Task

/-!
# Replication controllers

A controller wants a number of live tasks that match its selector, and has a template for new ones.
It does not know its tasks by their ids; matching the selector is all that makes a task count.
-/

namespace ControlPlane

/-- The label that names the controller of a replica. A selector that asks for it selects the
replicas of one controller and nothing else; nothing makes a selector ask for it. -/
def controllerLabel : String := "replicationController"

/-- What new replicas start from. There is no observed state in it, as a replica has not been
observed before it is there. -/
structure TaskTemplate where
  desiredState : TaskState := {}
  labels : Labels := .empty
deriving DecidableEq, Inhabited

/-- What a controller wants: so many live tasks among those that a selector selects, and what to
make new ones from. -/
structure ControllerState where
  /-- The number of live tasks. None is a number like any other, so a controller is emptied by
  setting it to zero. -/
  replicas : UInt64 := 0
  /-- Selects the tasks that count, whoever has created them. The empty selector counts all tasks of
  the cluster. -/
  replicaSelector : Labels := .empty
  taskTemplate : TaskTemplate := {}
deriving DecidableEq, Inhabited

/-- A replication controller. Its own labels are kept for its users and take no part in what it
does. -/
structure Controller where
  id : String := ""
  desiredState : ControllerState := {}
  labels : Labels := .empty
deriving DecidableEq, Inhabited

namespace Controller

/-- The labels of a replica: those of the template, and the id of the controller under a label of
its own, which takes the place of one of that name in the template. Whether the selector of the
controller selects them is up to whoever has written it. -/
def replicaLabels (c : Controller) : Labels :=
  c.desiredState.taskTemplate.labels.insert controllerLabel c.id

/-- The task that a new replica starts as. Its manifest, with everything else of the desired state,
is that of the template; the machine comes when it is placed. -/
def replica (c : Controller) (id : String) : Task :=
  { id := id, labels := c.replicaLabels, desiredState := c.desiredState.taskTemplate.desiredState }

end Controller

/-- The id that a random number gives to a task. It consists of hexadecimal digits, so it has no
slash and is the name of a document by itself. -/
def taskIdOf (number : UInt64) : String := String.ofList (hexText number.toNat)

/-! ### Documents -/

section

open Format

/-- Reads a template, with defaults for what is left out. -/
def TaskTemplate.read (j : Json) : Option TaskTemplate := do
  let r ← fields ["desiredState", "labels"] j
  return { desiredState := ← field r "desiredState" TaskState.read {}
           labels := ← field r "labels" Json.textMap? .empty }

/-- Reads what a controller wants. The number of replicas has to be one that is not negative and
fits into 64 bits, or the controller cannot be read. -/
def ControllerState.read (j : Json) : Option ControllerState := do
  let r ← fields ["replicas", "replicaSelector", "taskTemplate"] j
  return { replicas := ← field r "replicas" word64 0
           replicaSelector := ← field r "replicaSelector" Json.textMap? .empty
           taskTemplate := ← field r "taskTemplate" TaskTemplate.read {} }

/-- Reads a controller. As for tasks it is the key that says which controller it is, and a document
without an id can be read. -/
def Controller.read (j : Json) : Option Controller := do
  let r ← fields ["id", "desiredState", "labels"] j
  return { id := ← field r "id" text ""
           desiredState := ← field r "desiredState" ControllerState.read {}
           labels := ← field r "labels" Json.textMap? .empty }

end

/-- The document of a template, with every field. -/
def TaskTemplate.toJson (t : TaskTemplate) : Json :=
  .record [("desiredState", t.desiredState.toJson), ("labels", .ofTextMap t.labels)]

/-- The document of what a controller wants, with every field. -/
def ControllerState.toJson (s : ControllerState) : Json :=
  .record [("replicas", .ofNat s.replicas.toNat),
    ("replicaSelector", .ofTextMap s.replicaSelector), ("taskTemplate", s.taskTemplate.toJson)]

/-- The document of a controller, with every field. -/
def Controller.toJson (c : Controller) : Json :=
  .record [("id", .ofString c.id), ("desiredState", c.desiredState.toJson),
    ("labels", .ofTextMap c.labels)]

/-- The stored text of a controller, which is also what the changes of its key carry to those who
follow them. -/
def Controller.encode (c : Controller) : String := c.toJson.toText

end ControlPlane
