import ControlPlane.Engine.Call
import ControlPlane.Engine.ImageReference
import ControlPlane.Json.Format
import ControlPlane.Json.Reader

/-!
# The engine daemon

A container engine behind an HTTP interface: which request each call of an engine makes, and what
its reply means. Every call makes one request. A status outside the successful ones is a failure,
except that a container which is in the wanted state already is none.
-/

namespace ControlPlane.Engine

/-- A request to the daemon. -/
structure Request where
  /-- The name of the method. -/
  method : String
  /-- The path behind the version of the interface. Ids are put into it as they are. -/
  path : String
  /-- The parameters of the query, in order. -/
  query : List (String × String) := []
  body : Option Json := none
deriving Inhabited

/-- A reply of the daemon. -/
structure Reply where
  status : Nat
  body : String
deriving DecidableEq, Inhabited

/-- The interface of the daemon. It always replies; that it cannot be reached is not told apart from
a refusal. -/
def daemonCalls : Interface where
  Call := Request
  Answer _ := Reply

/-- Work with the daemon that may fail. -/
abbrev DaemonWork (α : Type) := Work daemonCalls α

namespace Reply

/-- Whether a request was successful, or changed nothing because nothing was to be changed. Stopping
a container that has ended is of the second kind, and no failure. -/
def accepted (r : Reply) : Bool :=
  (200 ≤ r.status && r.status < 300) || r.status == 304

/-- The document that the body of a reply is. -/
def document {α : Type} (read : Json → Option α) (r : Reply) : Except Error α :=
  match (Json.ofText? r.body).bind read with
  | some a => .ok a
  | none => .error .daemon

end Reply

/-! ### Requests -/

/-- A request that lists the running containers; those that have ended are left out by the daemon.
-/
def listRequest : Request := ⟨"GET", "containers/json", [("all", "false")], none⟩

/-- A request that inspects a container. -/
def inspectRequest (id : String) : Request := ⟨"GET", "containers/" ++ id ++ "/json", [], none⟩

/-- A request that fetches one tag of an image. Without a tag the daemon would fetch all that there
are. -/
def pullRequest (image : String) : Request :=
  let (repository, tag) := imageReference image
  ⟨"POST", "images/create", [("fromImage", repository), ("tag", tag)], none⟩

/-- Texts as the members of an object, which have no values. Each is a member once, and they are in
ascending order. -/
def textSet (texts : List String) : Json :=
  .record ((KeyMap.ofList (texts.map fun text => (text, ()))).keys.map fun text =>
    (text, .object []))

/-- The ports of the host that the ports of a container are published on, as texts, which is how the
daemon wants them. -/
def bindings (ports : KeyMap UInt16) : Json :=
  .record (ports.entries.map fun (port, hostPort) =>
    (port, .array [.record [("HostPort", .ofString (toString hostPort.toNat))]]))

/-- The document that a container is created from. What a specification does not say is null, so
that the image decides it. -/
def creation (spec : ContainerSpec) : Json :=
  .record [("Image", .ofString spec.image),
    ("ExposedPorts", textSet spec.exposedPorts),
    ("Env", .array (spec.env.map .ofString)),
    ("Volumes", textSet spec.volumes),
    ("WorkingDir", (spec.workingDir.map Json.ofString).getD .null),
    ("Cmd", if spec.cmd.isEmpty then .null else .array (spec.cmd.map .ofString)),
    ("HostConfig", .record [("Binds", .array (spec.binds.map .ofString)),
      ("PortBindings", bindings spec.portBindings)])]

/-- A request that creates a container. Its name stands in the query and not in the document. -/
def createRequest (spec : ContainerSpec) : Request :=
  ⟨"POST", "containers/create", [("name", spec.name)], some (creation spec)⟩

/-- A request that starts a container. -/
def startRequest (id : String) : Request := ⟨"POST", "containers/" ++ id ++ "/start", [], none⟩

/-- A request that stops a container. The daemon counts the time it has in whole seconds, and what
is left of a second is dropped. -/
def stopRequest (id : String) (grace : Span) : Request :=
  ⟨"POST", "containers/" ++ id ++ "/stop", [("t", toString grace.seconds.toNat)], none⟩

/-! ### Replies -/

open Format in
/-- A field that may be missing or null, which mean the same. -/
def optional {α : Type} (fields : List (String × Json)) (name : String) (read : Json → Option α) :
    Option (Option α) :=
  field fields name (fun | .null => some none | j => some <$> read j) none

open Format in
/-- Reads a listed container. One without an id or without a name is passed over, and of several
names the first one counts. -/
def readSummary (j : Json) : Option (Option Summary) := do
  let r ← fields ["Id", "Names"] j
  let id ← optional r "Id" text
  let names ← optional r "Names" (list text)
  return do return { id := ← id, name := ← (← names).head? }

/-- Reads the list of the running containers. One item of another form makes it unreadable. -/
def readSummaries (j : Json) : Option (List Summary) := do
  return (← Format.list readSummary j).filterMap id

open Format in
/-- Reads the state of a container; what is missing is empty, and does not run. -/
def readDetails (j : Json) : Option Details := do
  let r ← fields ["Name", "State"] j
  let name ← optional r "Name" text
  let running ← optional r "State" fun state => do
    optional (← fields ["Running"] state) "Running" flag
  return { name := name.getD "", running := running.join.getD false }

open Format in
/-- Reads the id of a new container. Warnings are not heeded, but have to be there. -/
def readCreated (j : Json) : Option String := do
  let r ← fields ["Id", "Warnings"] j
  let _ ← required r "Warnings" fun | .null => some [] | warnings => list text warnings
  required r "Id" text

open Format in
/-- Reads a line about the progress of a pull, and gives the error that it tells of. -/
def readProgress (j : Json) : Option (Option String) := do
  let r ← fields ["id", "error", "status", "progress"] j
  for name in ["id", "status", "progress"] do
    let _ ← optional r name text
  optional r "error" text

/-- Whether the lines about a pull can be read and tell of no error. The status of the reply does
not tell, since it is sent before the image is fetched. -/
def pullSucceeded (body : String) : Bool :=
  ((splitText ['\n'] body.toList).map String.ofList).all fun line =>
    blankText line || (Json.ofText? line).bind readProgress == some none

/-! ### Calls -/

/-- Makes a request, whose reply has to be a success. -/
def request (r : Request) : DaemonWork Reply := do
  let reply : Reply ← ExceptT.lift (Program.ask (I := daemonCalls) r)
  if reply.accepted then return reply else throw .daemon

/-- Makes a request whose reply is a document. -/
def requestDocument {α : Type} (r : Request) (read : Json → Option α) : DaemonWork α := do
  ExceptT.mk (pure ((← request r).document read))

/-- Carries out a call of an engine, by one request. Only a stop names its container in the failure.
-/
def viaDaemon : (c : Call) → DaemonWork c.Result
  | .ping => do let _ ← request ⟨"GET", "_ping", [], none⟩
  | .list => requestDocument listRequest readSummaries
  | .inspect id => requestDocument (inspectRequest id) readDetails
  | .pull image => do
    if pullSucceeded (← request (pullRequest image)).body then return () else throw .daemon
  | .create spec => requestDocument (createRequest spec) readCreated
  | .start id => do let _ ← request (startRequest id)
  | .stop id grace =>
    tryCatch (do let _ ← request (stopRequest id grace)) fun e =>
      throw (.engine ("Failed to stop container " ++ id ++ ": " ++ e.message))

end ControlPlane.Engine
