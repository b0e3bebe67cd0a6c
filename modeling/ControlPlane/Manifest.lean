import ControlPlane.Format
import ControlPlane.Json.Format

/-!
# Manifests

What a host shall run: a manifest is a bundle of containers under one id, and a host has a list of
them. Every field has a default, so a document states only what differs from it.
-/

namespace ControlPlane

/-- A port of a container and the port of the host that it is published on; zero publishes none. -/
structure Port where
  containerPort : UInt16 := 0
  hostPort : UInt16 := 0
deriving DecidableEq, Inhabited

/-- A variable of a container's environment. -/
structure EnvVar where
  name : String := ""
  value : String := ""
deriving DecidableEq, Inhabited

/-- A volume of the host mounted into a container. -/
structure VolumeMount where
  /-- The name of the volume under the volume root of its host. -/
  name : String := ""
  /-- The place inside the container where the volume is seen. -/
  mountPath : String := ""
  readOnly : Bool := false
deriving DecidableEq, Inhabited

/-- A container to be run. What it needs of its host are ports and volumes; where it is run is said
elsewhere. -/
structure Container where
  name : String := ""
  image : String := ""
  /-- The command line, which is cut into words when the container is created. An empty one leaves
  the command to the image. -/
  command : String := ""
  workingDir : String := ""
  env : List EnvVar := []
  ports : List Port := []
  volumeMounts : List VolumeMount := []
deriving DecidableEq, Inhabited

/-- Containers that run together on one host. The id ties a container that runs to the manifest that
asks for it, so it should be found once in a list. -/
structure Manifest where
  id : String := ""
  containers : List Container := []
deriving DecidableEq, Inhabited

/-! ### Documents -/

section

open Format

variable {m : Type → Type} {ν : Type} [Monad m] [Format m ν]

/-- Reads a port. Both numbers have sixteen bits, and a larger one is refused. -/
def Port.read (v : ν) : m Port := do
  let r ← fields ["containerPort", "hostPort"] v
  return { containerPort := ← field r "containerPort" word16 0
           hostPort := ← field r "hostPort" word16 0 }

/-- Reads a variable, whose value may be left out for the empty one. -/
def EnvVar.read (v : ν) : m EnvVar := do
  let r ← fields ["name", "value"] v
  return { name := ← field r "name" text "", value := ← field r "value" text "" }

/-- Reads a volume mount, which may be written to unless the document says otherwise. -/
def VolumeMount.read (v : ν) : m VolumeMount := do
  let r ← fields ["name", "mountPath", "readOnly"] v
  return { name := ← field r "name" text ""
           mountPath := ← field r "mountPath" text ""
           readOnly := ← field r "readOnly" flag false }

/-- Reads a container. A container may be without a name or an image; whether it can be run is found
out by running it. -/
def Container.read (v : ν) : m Container := do
  let r ← fields ["name", "image", "command", "workingDir", "env", "ports", "volumeMounts"] v
  return { name := ← field r "name" text ""
           image := ← field r "image" text ""
           command := ← field r "command" text ""
           workingDir := ← field r "workingDir" text ""
           env := ← field r "env" (list EnvVar.read) []
           ports := ← field r "ports" (list Port.read) []
           volumeMounts := ← field r "volumeMounts" (list VolumeMount.read) [] }

/-- Reads a manifest. Nothing but its form is checked, so that one odd manifest does not make a
whole list unreadable. -/
def Manifest.read (v : ν) : m Manifest := do
  let r ← fields ["id", "containers"] v
  return { id := ← field r "id" text ""
           containers := ← field r "containers" (list Container.read) [] }

end

/-- The document of a port, with both of its numbers. -/
def Port.toJson (p : Port) : Json :=
  .record [("containerPort", .ofNat p.containerPort.toNat), ("hostPort", .ofNat p.hostPort.toNat)]

/-- The document of a variable. -/
def EnvVar.toJson (v : EnvVar) : Json :=
  .record [("name", .ofString v.name), ("value", .ofString v.value)]

/-- The document of a volume mount. -/
def VolumeMount.toJson (v : VolumeMount) : Json :=
  .record [("name", .ofString v.name), ("mountPath", .ofString v.mountPath),
    ("readOnly", .bool v.readOnly)]

/-- The document of a container. Every field is written, also those that have their defaults. -/
def Container.toJson (c : Container) : Json :=
  .record [("name", .ofString c.name), ("image", .ofString c.image),
    ("command", .ofString c.command), ("workingDir", .ofString c.workingDir),
    ("env", .array (c.env.map EnvVar.toJson)), ("ports", .array (c.ports.map Port.toJson)),
    ("volumeMounts", .array (c.volumeMounts.map VolumeMount.toJson))]

/-- The document of a manifest, with its containers in their order, in which they are started. -/
def Manifest.toJson (m : Manifest) : Json :=
  .record [("id", .ofString m.id), ("containers", .array (m.containers.map Container.toJson))]

end ControlPlane
