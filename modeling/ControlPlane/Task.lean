import ControlPlane.Json.Writer
import ControlPlane.Manifest
import ControlPlane.Text.Pieces

/-!
# Tasks

A task is a unit of work bound to one host: labels to select it by, the state it shall have and the
state it was observed in. Whether a task has terminated, and which ports of its host it takes, are
decided from these records alone.
-/

namespace ControlPlane

/-- Labels of a task or a controller. A selector is a set of labels too, so that whether it selects
something is a comparison of two maps. -/
abbrev Labels := KeyMap String

/-- What to do when the containers of a task exit. It is kept with the task, and nobody acts on it
here: a container that has exited is run anew by the next pass of its node agent, whatever the
policy says. -/
inductive RestartPolicy where
  | always
  | onFailure
  | never
deriving DecidableEq, Inhabited

/-- A desired or observed state of a task. Both have the same fields, although a status is only ever
observed and the manifest to be run is the desired one. -/
structure TaskState where
  manifest : Manifest := {}
  restartPolicy : RestartPolicy := .always
  /-- The machine that the task is bound to. In a desired state it is written when the task is
  bound; in an observed one it is filled in by whoever reads the document, who knows where it was
  found. -/
  host : String := ""
  status : String := ""
deriving DecidableEq, Inhabited

/-- A unit of work, bound to one machine as long as it exists. Its id is meant to be unique in the
cluster, and it is also the id of its manifest on that machine. -/
structure Task where
  id : String := ""
  labels : Labels := .empty
  desiredState : TaskState := {}
  currentState : TaskState := {}
deriving DecidableEq, Inhabited

/-- Whether the labels contain every pair of the selector. The empty selector therefore selects
everything, and labels that the selector does not mention never count against a task. -/
def Labels.selectedBy (labels selector : Labels) : Bool :=
  selector.entries.all fun pair => labels.get? pair.1 == some pair.2

/-- The part of a status by which the engine says that a container has ended. It is looked for
anywhere in the status, since what stands around it depends on the engine. -/
def terminatedMark : String := "Exit"

/-- Whether the observed status says that the task has ended. Without a status nothing is known yet,
and a task of which nothing is known counts as live. -/
def Task.isTerminated (t : Task) : Bool :=
  occursIn terminatedMark.toList t.currentState.status.toList

/-- The ports of the host that the containers of a task take, in order and with repetitions. A port
that is not published has the host port zero, and so takes none and can never be in conflict with
another. -/
def Task.hostPorts (t : Task) : List UInt16 :=
  (t.desiredState.manifest.containers.flatMap fun c => c.ports.map Port.hostPort).filter (· != 0)

/-- The task as it is listed on a machine. The document does not say where it was observed, so the
machine under which it was found is filled in, in the place of whatever the document has there. -/
def Task.observedOn (t : Task) (machine : String) : Task :=
  { t with currentState := { t.currentState with host := machine } }

/-- The task as it is bound to a machine: the machine is written into the desired state, which is
what is stored. The observed state is left as it is, since nothing has been observed yet. -/
def Task.boundTo (t : Task) (machine : String) : Task :=
  { t with desiredState := { t.desiredState with host := machine } }

/-! ### Documents -/

/-- The policies with their words, which are those of documents and exact: a word in another case is
no policy, and the document cannot be read. -/
def RestartPolicy.words : List (String × RestartPolicy) :=
  [("always", always), ("onFailure", onFailure), ("never", never)]

/-- The word of a policy, by which it is written and found again among `words`. -/
def RestartPolicy.word : RestartPolicy → String
  | always => "always"
  | onFailure => "onFailure"
  | never => "never"

section

open Format

/-- Reads a state. Fields that are left out have their defaults, fields of other names are passed
over, and a field that cannot be read makes the whole state unreadable. -/
def TaskState.read (j : Json) : Option TaskState := do
  let r ← fields ["manifest", "restartPolicy", "host", "status"] j
  return { manifest := ← field r "manifest" Manifest.read {}
           restartPolicy := ← field r "restartPolicy" (Json.word? RestartPolicy.words) .always
           host := ← field r "host" text ""
           status := ← field r "status" text "" }

/-- Reads a task. An empty object is a task, one without an id; it is the key of the document and
not the id in it by which a task is asked for. -/
def Task.read (j : Json) : Option Task := do
  let r ← fields ["id", "labels", "desiredState", "currentState"] j
  return { id := ← field r "id" text ""
           labels := ← field r "labels" Json.textMap? .empty
           desiredState := ← field r "desiredState" TaskState.read {}
           currentState := ← field r "currentState" TaskState.read {} }

end

/-- The document of a state. Every field is written, also one that has its default, so that a
document does not change its meaning with the defaults. -/
def TaskState.toJson (s : TaskState) : Json :=
  .record [("manifest", s.manifest.toJson), ("restartPolicy", .ofString s.restartPolicy.word),
    ("host", .ofString s.host), ("status", .ofString s.status)]

/-- The document of a task, with every field, and labels in the order of their names. -/
def Task.toJson (t : Task) : Json :=
  .record [("id", .ofString t.id), ("labels", .ofTextMap t.labels),
    ("desiredState", t.desiredState.toJson), ("currentState", t.currentState.toJson)]

/-- The stored text of a task. It is what the registry writes under the key of the task, and what
`Task.read` takes the task from again. -/
def Task.encode (t : Task) : String := t.toJson.toText

end ControlPlane
