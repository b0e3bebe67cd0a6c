import ControlPlane.Node.ContainerSpec
import ControlPlane.Span
import ControlPlane.Work

/-!
# What a container engine offers

The few calls of a container engine that a node agent needs. Only running containers are listed, and
names come back with a slash in front.
-/

namespace ControlPlane.Engine

/-- A running container as it is listed. The name, which may have a slash in front, is the only
thing that tells what the container is for. -/
structure Summary where
  id : String
  name : String
deriving DecidableEq, Inhabited

/-- The state of one container, which may not run any more although it was listed. -/
structure Details where
  name : String
  running : Bool
deriving DecidableEq, Inhabited

/-- The calls of an engine. -/
inductive Call where
  /-- Asks whether the engine is there. -/
  | ping
  /-- Lists the running containers, in an order of the engine's own. -/
  | list
  | inspect (id : String)
  /-- Fetches an image, which takes its time. -/
  | pull (image : String)
  /-- Creates a container, and gives its id. It does not run yet. -/
  | create (spec : ContainerSpec)
  | start (id : String)
  /-- Stops a container, which has some time to end by itself. -/
  | stop (id : String) (grace : Span)
deriving DecidableEq, Inhabited

/-- What a call gives if it succeeds. -/
def Call.Result : Call → Type
  | ping => Unit
  | list => List Summary
  | inspect _ => Details
  | pull _ => Unit
  | create _ => String
  | start _ => Unit
  | stop .. => Unit

/-- The interface of an engine, each of whose calls may fail. -/
def calls : Interface where
  Call := Call
  Answer c := Except Error c.Result

end ControlPlane.Engine
