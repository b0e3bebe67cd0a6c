import ControlPlane.Error
import ControlPlane.Json.Writer
import ControlPlane.Placement.Policy
import ControlPlane.Span
import ControlPlane.Text.Blank
import ControlPlane.Text.Pieces

/-!
# Settings

The settings of the two processes: the node agent, and the replication manager. Documents of
settings are complete; defaults apply only to settings that are put together in a program.
-/

namespace ControlPlane

/-- The settings of a node agent. -/
structure NodeSettings where
  /-- The name of the host in the registry, by which its manifest list is found. There is no host of
  the empty name. -/
  hostname : String := ""
  etcdServers : List String := []
  /-- The longest time between two passes, which is also how long the agent waits when nothing
  changes. -/
  syncFrequency : Span := .ofSeconds 10
  /-- How long one subscription is kept. A new one is followed by a new reading, so this is how long
  a missed change stays unseen. -/
  watchTimeout : Span := .ofSeconds 30
  /-- The wait before the store is tried again. -/
  storeRetryInterval : Span := .ofSeconds 30
  /-- The time that a container has to stop by itself before it is ended. -/
  stopGracePeriod : Span := .ofSeconds 10
  /-- How long events are kept, which is two days. -/
  eventTtl : Span := .ofSeconds 172800
  /-- The directory of the host under which volumes are found. -/
  volumeRoot : String := "/exports"
deriving DecidableEq, Inhabited

/-- The settings of a replication manager. -/
structure ManagerSettings where
  etcdServers : List String := []
  /-- The machines that tasks may be placed on, in the order in which they are scanned. -/
  machines : List String := []
  /-- The time between two full scans, from the end of the one to the beginning of the other. -/
  syncInterval : Span := .ofSeconds 10
  /-- The pause between two creations of one pass. -/
  creationDelay : Span := .ofSeconds 1
  /-- The wait before a lost watch is opened again. -/
  watchRetryInterval : Span := .ofSeconds 10
  scheduler : Policy := .firstFit
  /-- How many tasks a machine takes. -/
  capacity : UInt64 := 10
deriving DecidableEq, Inhabited

/-- Whether a node agent can work with its settings; the first setting that is wrong is named. Times
that may be zero are not checked, since they only make something happen at once. -/
def NodeSettings.validate (s : NodeSettings) : Except Error Unit :=
  if blankText s.hostname then .error (.badSetting "hostname cannot be empty")
  else if s.etcdServers.isEmpty then .error (.badSetting "at least one etcd server is required")
  else if s.syncFrequency.isZero || s.watchTimeout.isZero then
    .error (.badSetting "sync and watch intervals must be positive")
  else .ok ()

/-- Whether a replication manager can work with its settings; the first setting that is wrong is
named. A manager without machines could place nothing, and one whose interval is zero would scan
without a pause. -/
def ManagerSettings.validate (s : ManagerSettings) : Except Error Unit :=
  if s.etcdServers.isEmpty then .error (.badSetting "at least one etcd server is required")
  else if s.machines.isEmpty then .error (.badSetting "at least one machine is required")
  else if s.capacity = 0 then .error (.badSetting "capacity must be at least 1")
  else if s.syncInterval.isZero then .error (.badSetting "sync interval must be positive")
  else .ok ()

/-- The settings with a host name, whose blanks at both ends do not count. -/
def NodeSettings.named (s : NodeSettings) (hostname : String) : NodeSettings :=
  { s with hostname := trimBlank hostname }

/-- The nonempty parts of a list that is separated by commas, trimmed. -/
def splitList (s : String) : List String :=
  ((splitText [','] s.toList).map fun part => trimBlank (String.ofList part)).filter (· != "")

/-! ### Documents -/

section

open Format

/-- Reads a span, which has no other fields than its two. Both have to be there, and a nanosecond
part of more than a second is carried over. -/
def Span.read (j : Json) : Option Span := do
  let r ← fields ["secs", "nanos"] j
  guard (r.all fun field => field.1 == "secs" || field.1 == "nanos")
  let seconds ← required r "secs" word64
  let nanos ← required r "nanos" natural
  guard (nanos < UInt32.size)
  Span.ofParts? seconds.toNat nanos

/-- Reads the settings of a node agent. Every field has to be there: a file in which a setting was
forgotten should not be taken for one with its default. -/
def NodeSettings.read (j : Json) : Option NodeSettings := do
  let r ← fields ["hostname", "etcd_servers", "sync_frequency", "watch_timeout",
    "store_retry_interval", "stop_grace_period", "event_ttl", "volume_root"] j
  return { hostname := ← required r "hostname" text
           etcdServers := ← required r "etcd_servers" (list text)
           syncFrequency := ← required r "sync_frequency" Span.read
           watchTimeout := ← required r "watch_timeout" Span.read
           storeRetryInterval := ← required r "store_retry_interval" Span.read
           stopGracePeriod := ← required r "stop_grace_period" Span.read
           eventTtl := ← required r "event_ttl" Span.read
           volumeRoot := ← required r "volume_root" text }

/-- Reads the settings of a replication manager, all of which have to be there. -/
def ManagerSettings.read (j : Json) : Option ManagerSettings := do
  let r ← fields ["etcd_servers", "machines", "sync_interval", "creation_delay",
    "watch_retry_interval", "scheduler", "capacity"] j
  return { etcdServers := ← required r "etcd_servers" (list text)
           machines := ← required r "machines" (list text)
           syncInterval := ← required r "sync_interval" Span.read
           creationDelay := ← required r "creation_delay" Span.read
           watchRetryInterval := ← required r "watch_retry_interval" Span.read
           scheduler := ← required r "scheduler" Policy.read
           capacity := ← required r "capacity" word64 }

end

/-- The document of a span. -/
def Span.toJson (d : Span) : Json :=
  .record [("secs", .ofNat d.seconds.toNat), ("nanos", .ofNat d.nanos)]

/-- The document of the settings of a node agent. -/
def NodeSettings.toJson (s : NodeSettings) : Json :=
  .record [("hostname", .ofString s.hostname),
    ("etcd_servers", .array (s.etcdServers.map .ofString)),
    ("sync_frequency", s.syncFrequency.toJson), ("watch_timeout", s.watchTimeout.toJson),
    ("store_retry_interval", s.storeRetryInterval.toJson),
    ("stop_grace_period", s.stopGracePeriod.toJson), ("event_ttl", s.eventTtl.toJson),
    ("volume_root", .ofString s.volumeRoot)]

/-- The document of the settings of a replication manager, with the policy as its word. -/
def ManagerSettings.toJson (s : ManagerSettings) : Json :=
  .record [("etcd_servers", .array (s.etcdServers.map .ofString)),
    ("machines", .array (s.machines.map .ofString)), ("sync_interval", s.syncInterval.toJson),
    ("creation_delay", s.creationDelay.toJson),
    ("watch_retry_interval", s.watchRetryInterval.toJson),
    ("scheduler", .ofString s.scheduler.word), ("capacity", .ofNat s.capacity.toNat)]

end ControlPlane
