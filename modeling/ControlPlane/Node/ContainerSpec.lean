import ControlPlane.KeyMap
import ControlPlane.Manifest
import ControlPlane.Text.Blank
import ControlPlane.Text.Pieces

/-!
# What the engine is told about a container

A container of a manifest in the terms of a container engine: ports with their protocol, variables
as assignments, volumes as places and binds. Of two declarations of one container port the later one
decides the port of the host.
-/

namespace ControlPlane

/-- Everything that is needed to create a container. It has the texts that an engine expects, and
nothing of the manifest that is not the same for every engine. -/
structure ContainerSpec where
  name : String
  image : String
  /-- The ports of the container with their protocol, in the order of their declarations. -/
  exposedPorts : List String := []
  /-- Assignments to variables, in order; a variable that is assigned twice is listed twice. -/
  env : List String := []
  /-- The places inside the container where volumes are mounted. -/
  volumes : List String := []
  workingDir : Option String := none
  /-- The words of the command; without any the command of the image is used. -/
  cmd : List String := []
  /-- The port of the host for each exposed port. There is one for each key, so two declarations of
  one container port come to a single binding. -/
  portBindings : KeyMap UInt16 := .empty
  /-- Where volumes come from and go to. -/
  binds : List String := []
deriving DecidableEq, Inhabited

namespace ContainerSpec

/-- A port of a container with its protocol, which is always the same, as manifests do not name one.
-/
def exposed (p : Port) : String := toString p.containerPort.toNat ++ "/tcp"

/-- The assignment to a variable. Its name has no equals sign, or the engine cuts it in another
place. -/
def assignment (v : EnvVar) : String := v.name ++ "=" ++ v.value

/-- Where a volume comes from and goes to. A volume is a directory under the volume root of the
host; that it may not be written is said by a third part. -/
def bind (root : String) (v : VolumeMount) : String :=
  root ++ "/" ++ v.name ++ ":" ++ v.mountPath ++ if v.readOnly then ":ro" else ""

/-- The specification of a container under a name. The volumes of the host lie under `volumeRoot`,
whose slashes at the end do not count. An empty working directory is none, so that the one of the
image is used; a port that is not published is bound to the port zero. -/
def ofContainer (c : Container) (name volumeRoot : String) : ContainerSpec :=
  let root := String.ofList (trimEnd '/' volumeRoot.toList)
  { name := name
    image := c.image
    exposedPorts := c.ports.map exposed
    env := c.env.map assignment
    volumes := c.volumeMounts.map VolumeMount.mountPath
    workingDir := if c.workingDir = "" then none else some c.workingDir
    cmd := words c.command
    portBindings := KeyMap.ofList (c.ports.map fun p => (exposed p, p.hostPort))
    binds := c.volumeMounts.map (bind root) }

end ContainerSpec

end ControlPlane
