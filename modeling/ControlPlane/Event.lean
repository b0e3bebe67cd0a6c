import ControlPlane.Json.Format
import ControlPlane.Json.Writer

/-!
# Lifecycle events

Records of what was done to containers. They are appended to the store and never read back here, and
no field of them may be left out.
-/

namespace ControlPlane

/-- Something that was done to a container of a manifest. The container and its manifest are named
as they are in manifests, not by the name under which the engine ran the container. -/
structure Event where
  event : String
  /-- The id of the manifest, which is empty for a container of none. -/
  manifest : String
  /-- The name of the container in its manifest, which also says where the event is kept. -/
  container : String
  /-- Seconds of Unix time. -/
  timestamp : Int64
deriving DecidableEq, Inhabited

namespace Event

/-- The event of a container that was stopped. It is recorded for the attempt, whether or not the
engine could stop the container. -/
def stopped (manifest container : String) (timestamp : Int64) : Event :=
  ⟨"STOP", manifest, container, timestamp⟩

open Format in
/-- Reads an event. No field has a default, since an event that does not say what was done, or to
which container, is of no use; manifest and container are objects of which one field counts. -/
def read (j : Json) : Option Event := do
  let r ← fields ["event", "manifest", "container", "timestamp"] j
  let named (name : String) (j : Json) : Option String := do
    required (← fields [name] j) name text
  return { event := ← required r "event" text
           manifest := ← required r "manifest" (named "id")
           container := ← required r "container" (named "name")
           timestamp := ← required r "timestamp" Json.signed64? }

/-- The document of an event. Its manifest and its container are objects with one field each. -/
def toJson (e : Event) : Json :=
  .record [("event", .ofString e.event), ("manifest", .record [("id", .ofString e.manifest)]),
    ("container", .record [("name", .ofString e.container)]),
    ("timestamp", .number (.integer e.timestamp.toInt))]

/-- The stored text of an event, which becomes a child of the directory of its container. -/
def encode (e : Event) : String := e.toJson.toText

end Event

end ControlPlane
