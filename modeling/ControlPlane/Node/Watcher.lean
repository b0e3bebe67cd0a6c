import ControlPlane.Feed
import ControlPlane.Registry
import ControlPlane.Settings

/-!
# Watching the manifest list

The watcher of a host brings the manifest list from the store to the node agent. It subscribes to
the key, then reads it, then follows its changes. A subscription is given up after some time, and
when it has ended; each new one is followed by a new reading, so what was changed in between is not
lost.

Until the store has answered once the watcher tries again and again. After that a reading that fails
is passed over, since the subscription is there.

The watcher ends when nobody takes the lists any more. Until then each stage and one round of work
lead to the next stage.
-/

namespace ControlPlane

/-- The calls of the watcher of a host. -/
inductive WatcherCall where
  | store (c : StoreCall)
  /-- Hands a list on, and waits until there is room for it. Tells whether it was taken, which it is
  not if nobody takes lists any more. -/
  | send (manifests : List Manifest)
  /-- Waits, before the store is tried again. -/
  | wait (d : Span)
  /-- The moment that is so far ahead. -/
  | ahead (d : Span)
  /-- Waits for the next change of a subscription, and no longer than until a moment. -/
  | receive (w : WatchId) (limit : Moment)
  /-- Leaves a subscription, after which nothing comes from it. -/
  | stop (w : WatchId)
deriving DecidableEq, Inhabited

/-- The answer to a call. -/
def WatcherCall.Answer : WatcherCall → Type
  | store c => Except Error c.Result
  | send _ => Bool
  | wait _ => Unit
  | ahead _ => Moment
  | receive .. => Received Change
  | stop _ => Unit

/-- The interface of the watcher of a host. -/
def watcherCalls : Interface where
  Call := WatcherCall
  Answer := WatcherCall.Answer

namespace Node

/-- What a watcher does about something that it received. -/
inductive WatchStep where
  /-- There is a new list. -/
  | deliver (manifests : List Manifest)
  /-- The list cannot be read; the last good one stays. -/
  | skip
  /-- The subscription has ended. -/
  | reconnect
deriving DecidableEq, Inhabited

/-- What to do about a change, or about the end of a subscription. A key that is gone means that
nothing shall run; a list that cannot be read means nothing at all, so that a slip in it does not
stop what runs. -/
def classify : Option Change → WatchStep
  | none => .reconnect
  | some c =>
    if c.action.isRemoval then .deliver []
    else
      match Manifest.decodeList c.node.value with
      | .ok manifests => .deliver manifests
      | .error _ => .skip

/-- The stages of a watcher. -/
inductive Watching where
  /-- There is no subscription; `answered` tells whether the store has ever been read, which decides
  what a reading that fails leads to. -/
  | subscribing (answered : Bool)
  /-- Changes are awaited until a moment, at which the subscription is given up. -/
  | following (w : WatchId) (limit : Moment)
deriving DecidableEq, Inhabited

namespace Watching

open Program

/-- The first stage of a watcher, which has read nothing. -/
def start : Watching := subscribing false

/-- Starts to follow a subscription. Its time is counted from here, behind the reading and the
handing on. -/
def follow (s : NodeSettings) (w : WatchId) : Program watcherCalls (Option Watching) := do
  let limit : Moment ← ask (I := watcherCalls) (.ahead s.watchTimeout)
  return some (following w limit)

/-- Hands a list on and goes to the next stage, or leaves the subscription if nobody takes it. -/
def handOn (w : WatchId) (manifests : List Manifest)
    (next : Program watcherCalls (Option Watching)) : Program watcherCalls (Option Watching) := do
  let taken : Bool ← ask (I := watcherCalls) (.send manifests)
  if taken then next
  else do
    let _ ← ask (I := watcherCalls) (.stop w)
    return none

/-- One round: opening a subscription with the reading behind it, or dealing with one thing that was
received. The subscription is opened before the reading, so that no change falls between the two;
one that was made in between is handed on twice. There is no next stage when nobody takes the lists
any more. -/
def round (s : NodeSettings) : Watching → Program watcherCalls (Option Watching)
  | subscribing answered => do
    let opened : Except Error WatchId ←
      ask (I := watcherCalls) (.store (.watch (Keys.manifests s.hostname) false))
    match opened with
    | .error _ => do
      let _ ← ask (I := watcherCalls) (.wait s.storeRetryInterval)
      return some (subscribing answered)
    | .ok w => do
      let read ← (Registry.manifests s.hostname).run.expand fun c =>
        ask (I := watcherCalls) (.store c)
      match read with
      | .ok manifests => handOn w manifests (follow s w)
      | .error _ => do
        if answered then follow s w
        else do
          let _ ← ask (I := watcherCalls) (.stop w)
          let _ ← ask (I := watcherCalls) (.wait s.storeRetryInterval)
          return some (subscribing false)
  | following w limit => do
    let received : Received Change ← ask (I := watcherCalls) (.receive w limit)
    match received with
    | .nothing => do
      let _ ← ask (I := watcherCalls) (.stop w)
      return some (subscribing true)
    | .item change =>
      match classify (some change) with
      | .deliver manifests => handOn w manifests (return some (following w limit))
      | .skip => return some (following w limit)
      | .reconnect => return some (subscribing true)
    | .ended => return some (subscribing true)

end Watching

end Node

end ControlPlane
