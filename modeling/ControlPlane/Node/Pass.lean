import ControlPlane.Engine.Call
import ControlPlane.Node.ContainerName
import ControlPlane.Registry
import ControlPlane.Settings

/-!
# Convergence passes

One pass makes the running containers of a host agree with a list of manifests. First every
container of the list claims a name: that of a container already running for it, or that of a new
one. Then every running container whose name is not claimed is stopped, and an event is recorded for
it.

A container that cannot be started claims its name all the same, and no failure keeps the pass from
going on with the other containers. Nothing is remembered from one pass to the next; the names of
the containers tell what they are run for.
-/

namespace ControlPlane

/-- The calls of a node agent at work. Its engine and the store are asked through one interface, so
that one log has everything that a pass does, in order. -/
inductive NodeCall where
  | engine (c : Engine.Call)
  | store (c : StoreCall)
  /-- Takes the lock on pulls, in turn. Passes of one agent may overlap, and they share the lock. -/
  | acquire
  /-- Gives the lock back, also after a pull that has failed. -/
  | release
  /-- A random number for a new name, so that a container that is run anew does not have the name of
  the one before. -/
  | suffix
  /-- The Unix time in seconds, for an event that is about to be recorded. -/
  | timestamp
deriving DecidableEq, Inhabited

/-- The answer to a call. The engine and the store may fail; locks, numbers and the time may not. -/
def NodeCall.Answer : NodeCall → Type
  | engine c => Except Error c.Result
  | store c => Except Error c.Result
  | acquire => Unit
  | release => Unit
  | suffix => UInt32
  | timestamp => Int64

/-- The interface of a node agent at work, behind which any engine and any store may stand. -/
def nodeCalls : Interface where
  Call := NodeCall
  Answer := NodeCall.Answer

/-- Work of a node agent that may fail. Most of a pass does not let a failure through and is a
program instead. -/
abbrev NodeWork (α : Type) := Work nodeCalls α

namespace Node

open ContainerName

/-- A call of the engine. Its failure is that of the work. -/
def onEngine (c : Engine.Call) : NodeWork c.Result :=
  ExceptT.mk (Program.ask (I := nodeCalls) (.engine c))

/-- Work that only uses the store, made through the calls of the agent. -/
def onStore {α : Type} (w : StoreWork α) : NodeWork α :=
  w.through fun c => Program.ask (I := nodeCalls) (.store c)

/-- The name of the first of the listed containers that is run for `wanted`. What is listed was
running when the listing was made and may have ended since; so each container that was started for
`wanted` is looked at, until one is found that still runs. The name is taken from that second
answer, without its slash. -/
def running? (wanted : Identity) : List Engine.Summary → NodeWork (Option String)
  | [] => return none
  | summary :: summaries => do
    if identity summary.name = wanted then
      let details : Engine.Details ← onEngine (.inspect summary.id)
      if details.running then return some (canonical details.name)
      else running? wanted summaries
    else running? wanted summaries

/-- Fetches an image. One image is fetched at a time, so a pass that has to wait for its turn does
so here, and the lock is given back whatever becomes of the pull. -/
def pull (image : String) : NodeWork Unit := ExceptT.mk do
  let _ ← Program.ask (I := nodeCalls) .acquire
  let pulled ← (onEngine (.pull image)).run
  let _ ← Program.ask (I := nodeCalls) .release
  return pulled

/-- Runs a container under a name: its image is fetched, and it is created and started. The first of
the three steps that fails is the last one; a container that was created and cannot be started stays
behind, and is not listed as running. -/
def launch (s : NodeSettings) (c : Container) (name : String) : NodeWork Unit := do
  pull c.image
  let id : String ← onEngine (.create (.ofContainer c name s.volumeRoot))
  onEngine (.start id)

/-- The name that a container of a manifest claims; none if it cannot be told what is running.
Nothing is started then, for fear of running it twice. A new name is claimed even if the container
could not be started under it, and the failure is not passed on, so that the others are not
affected. -/
def claim (s : NodeSettings) (manifest : String) (c : Container) :
    Program nodeCalls (Option String) := do
  let found ← ExceptT.run do
    let summaries : List Engine.Summary ← onEngine .list
    running? ⟨manifest, c.name⟩ summaries
  match found with
  | .ok (some name) => return some name
  | .ok none => do
    let suffix : UInt32 ← Program.ask (I := nodeCalls) .suffix
    let name := build manifest c.name suffix
    let _ ← (launch s c name).run
    return some name
  | .error _ => return none

/-- The containers of a list of manifests, each with the id of its manifest, in order. A pair that
occurs twice is listed twice, and each occurrence makes its own claim; the second one then usually
finds what the first has started. Containers are told apart by both parts, since two manifests may
have containers of one name. -/
def wanted (manifests : List Manifest) : List (String × Container) :=
  manifests.flatMap fun m => m.containers.map fun c => (m.id, c)

/-- The names that containers claim, one after the other. Those that can claim none leave no trace
in the list, and so what was run for them before is not spared when the rest is stopped. -/
def claims (s : NodeSettings) : List (String × Container) → Program nodeCalls (List String)
  | [] => return []
  | (manifest, c) :: rest => do
    let name ← claim s manifest c
    let names ← claims s rest
    return name.toList ++ names

/-- Stops a container and records the event, whether or not it could be stopped. What the event
names is read from the name of the container, since nothing else is known of one that no manifest
asks for. That an event cannot be recorded is no failure of the pass. -/
def kill (s : NodeSettings) (summary : Engine.Summary) : Program nodeCalls (Except Error Unit) := do
  let stopped ← (onEngine (.stop summary.id s.stopGracePeriod)).run
  let timestamp : Int64 ← Program.ask (I := nodeCalls) .timestamp
  let killed := identity summary.name
  let event := Event.stopped killed.manifest killed.container timestamp
  let _ ← (onStore (Registry.recordEvent event s.eventTtl)).run
  return stopped

/-- Stops containers one after the other. None of them is left out because another one could not be
stopped; of several failures the last one counts. -/
def killEach (s : NodeSettings) : List Engine.Summary → NodeWork Unit
  | [] => return ()
  | summary :: summaries => ExceptT.mk do
    let first ← kill s summary
    let others ← (killEach s summaries).run
    return if others.isOk then first else others

/-- One pass for a list of manifests. The containers that run are listed again behind the claims, so
that those just started are among them and are spared by their names. A pass fails if that listing
fails, or if a container cannot be stopped; a container that cannot be started does not make it
fail. -/
def pass (s : NodeSettings) (manifests : List Manifest) : NodeWork Unit := do
  let claimed ← ExceptT.lift (claims s (wanted manifests))
  let summaries : List Engine.Summary ← onEngine .list
  killEach s (summaries.filter fun summary => !claimed.contains (canonical summary.name))

/-- Asks whether the engine is there, before anything else is done. An agent that cannot reach its
engine does not start. -/
def reachEngine : NodeWork Unit :=
  tryCatch (onEngine .ping) fun e =>
    throw (.engine ("container runtime unreachable: " ++ e.message))

end Node

end ControlPlane
