import ControlPlane.Controller
import ControlPlane.Event
import ControlPlane.Json.Reader
import ControlPlane.Manifest.Listing
import ControlPlane.Registry.Keys
import ControlPlane.Store.Call

/-!
# The registry

The state of the cluster as documents in the store. A task is kept under the machine that it is
bound to, and binding it also appends its manifest to the machine's manifest list, which is what the
node agent of the machine reads. The two documents are written one after the other: a task first
comes and then its manifest, a manifest first goes and then its task.

Manifest lists are read, changed and written without a comparison in between, so a machine has to
have one writer only. Documents that cannot be read are passed over in listings and are an error
when they are asked for.
-/

namespace ControlPlane.Registry

open StoreWork

/-- The node of a key, if there is one. That a key is missing is an answer here and not a failure;
any other failure of the store remains one. -/
def node? (key : String) : StoreWork (Option Node) :=
  (call (.get key)).orNone

/-- The documents directly under a directory that can be read, in ascending order of their keys. A
document that cannot be read is left out, so that one spoilt document does not hide the others, and
a directory without keys is an empty list. -/
def documents {α : Type} (read : Json → Option α) (dir : String) : StoreWork (List α) := do
  let nodes ← (call (.list dir false)).orNone
  return (nodes.getD []).filterMap fun (node : Node) => (Json.ofText? node.value).bind read

/-! ### Tasks -/

/-- The tasks of a machine. Only what lies directly under its directory counts, and each task is
given back with this machine as the one on which it was observed. -/
def machineTasks (machine : String) : StoreWork (List Task) := do
  let tasks ← documents Task.read (Keys.tasksDir machine)
  return tasks.map (·.observedOn machine)

/-- The tasks with labels that a selector selects, machine by machine. The machines are listed one
after the other, so a failure at any of them fails the whole listing, and what changes meanwhile may
be seen or not. -/
def tasks (machines : List String) (selector : Labels) : StoreWork (List Task) := do
  let lists ← machines.mapM machineTasks
  return lists.flatten.filter (·.labels.selectedBy selector)

/-- The first machine that has a document of the task, with the task. The search ends at the first
document of the id, even if it cannot be read: it is an error then, and machines behind it are not
asked. -/
def locate? (id : String) : (machines : List String) → StoreWork (Option (String × Task))
  | [] => return none
  | machine :: machines => do
    match ← node? (Keys.task machine id) with
    | some node =>
      match (Json.ofText? node.value).bind Task.read with
      | some task => return some (machine, task.observedOn machine)
      | none => throw (.malformed ("task " ++ id))
    | none => locate? id machines

/-- The machine of a task that has to exist, with the task. No machine having a document of the id
is an error of its own, which callers tell from a failure of the store. -/
def locate (machines : List String) (id : String) : StoreWork (String × Task) := do
  match ← locate? id machines with
  | some found => return found
  | none => throw (.taskNotFound id)

/-- The task of an id, wherever it is bound. It fails if no machine has the task, or if the first
one that has it has a document that cannot be read. -/
def task (machines : List String) (id : String) : StoreWork Task :=
  Prod.snd <$> locate machines id

/-- The manifest list of a machine. A machine without one has the empty list, as it is before its
first task; a list that cannot be read is an error, so that it is not replaced by a shorter one. -/
def manifests (machine : String) : StoreWork (List Manifest) := do
  match ← node? (Keys.manifests machine) with
  | some node => ExceptT.mk (pure (Manifest.decodeList node.value))
  | none => return []

/-- Writes the manifest list of a machine, in the place of the one that is there. Nothing is
compared, so that of two writers who have read the same list the second undoes what the first has
done. -/
def setManifests (machine : String) (manifests : List Manifest) : StoreWork Unit := do
  let _ ← call (.set (Keys.manifests machine) (Manifest.encodeList manifests) none)

/-- The manifest that a task has in the list of its machine. It has the id of the task in the place
of its own, so that a manifest can be found by its task, and tasks whose templates name the same
manifest do not get into each other's way. -/
def boundManifest (t : Task) : Manifest := { t.desiredState.manifest with id := t.id }

/-- Binds a task to a machine. The id must not be taken on any machine, and the list is read before
anything is written, so that a list that cannot be read stops the binding early. The document comes
first and the list after it: a failure in between leaves a task that nobody runs. -/
def createTask (machines : List String) (machine : String) (t : Task) : StoreWork Unit := do
  if let some (existing, _) ← locate? t.id machines then
    throw (.taskExists t.id existing)
  let current ← manifests machine
  let _ ← call (.create (Keys.task machine t.id) (t.boundTo machine).encode none)
  setManifests machine (current ++ [boundManifest t])

/-- Tasks are not changed in place. One that shall be different is deleted and created anew. -/
def updateTask (_ : Task) : StoreWork Unit :=
  throw (.notOffered "task update")

/-- Unbinds a task from its machine. The manifest goes first and the document last, so that a
failure in between leaves a task that can still be found, and deleted again. A list without the
manifest is written all the same. -/
def deleteTask (machines : List String) (id : String) : StoreWork Unit := do
  let (machine, _) ← locate machines id
  let current ← manifests machine
  setManifests machine (current.filter (·.id != id))
  call (.delete (Keys.task machine id) true)

/-! ### Controllers -/

/-- All controllers, in ascending order of their keys, without those that cannot be read. -/
def controllers : StoreWork (List Controller) :=
  documents Controller.read Keys.controllersDir

/-- The controller of an id. It is an error if there is none, and another one if its document cannot
be read. -/
def controller (id : String) : StoreWork Controller := do
  match ← node? (Keys.controller id) with
  | some node =>
    match (Json.ofText? node.value).bind Controller.read with
    | some c => return c
    | none => throw (.malformed ("controller " ++ id))
  | none => throw (.controllerNotFound id)

/-- Writes a controller, in the place of one with the same id. Creating and changing a controller
are the same thing, so neither fails because of what is there. -/
def setController (c : Controller) : StoreWork Unit := do
  let _ ← call (.set (Keys.controller c.id) c.encode none)

/-- Removes a controller. It is an error if there is none; the tasks that it has asked for stay as
they are, since nothing but labels ties them to it. -/
def deleteController (id : String) : StoreWork Unit := do
  if (← (call (.delete (Keys.controller id) false)).orNone).isNone then
    throw (.controllerNotFound id)

/-! ### Events -/

/-- Appends an event to the events of its container, under a key that the store makes up and that
has never been used. Events end by themselves when their time is over. -/
def recordEvent (e : Event) (ttl : Span) : StoreWork Unit := do
  let _ ← call (.addChild (Keys.eventsDir e.container) e.encode ttl)

end ControlPlane.Registry
