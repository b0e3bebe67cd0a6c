import ControlPlane.Feed
import ControlPlane.Manifest
import ControlPlane.Error
import ControlPlane.Program
import ControlPlane.Settings

/-!
# The sync loop

The sync loop of a node agent makes a pass for every list of manifests that it is given, at once,
and makes a pass for the last list again when none has come for some time. It goes on with the last
list when no further list can come. A pass that fails changes nothing.

The loop never ends. Its stage is the last list, and whether lists may still come.
-/

namespace ControlPlane

/-- The calls of the sync loop. -/
inductive LoopCall where
  /-- The moment that is so far ahead of the time of the call. -/
  | ahead (d : Span)
  /-- Waits for the next list, and no longer than until a moment. -/
  | receive (limit : Moment)
  /-- Waits until a moment, when no further list can come. -/
  | waitUntil (moment : Moment)
  /-- Makes a pass, and waits until it is over. -/
  | sync (manifests : List Manifest)
deriving DecidableEq, Inhabited

/-- The answer to a call. How a pass has ended is told, but nothing depends on it. -/
def LoopCall.Answer : LoopCall → Type
  | ahead _ => Moment
  | receive _ => Received (List Manifest)
  | waitUntil _ => Unit
  | sync _ => Except Error Unit

/-- The interface of the sync loop. -/
def loopCalls : Interface where
  Call := LoopCall
  Answer := LoopCall.Answer

namespace Node

/-- The stage of a sync loop. -/
structure SyncLoop where
  /-- The last list, which is the empty one until a list has come. -/
  current : List Manifest := []
  /-- Whether further lists may come. When they cannot, the last list is kept in force for good. -/
  more : Bool := true
deriving DecidableEq, Inhabited

namespace SyncLoop

open Program

/-- Makes a pass for the last list. One that fails is followed by the next round like any other,
since the next pass is what makes up for it. -/
def sync (l : SyncLoop) : Program loopCalls SyncLoop := do
  let _ ← ask (I := loopCalls) (.sync l.current)
  return l

/-- One round: a wait for something to do, and what is to be done. The moment is asked for anew in
every round, so that time spent in a pass does not count; the round in which the lists come to an
end makes no pass. -/
def round (s : NodeSettings) (l : SyncLoop) : Program loopCalls SyncLoop := do
  let limit : Moment ← ask (I := loopCalls) (.ahead s.syncFrequency)
  if l.more then
    let received : Received (List Manifest) ← ask (I := loopCalls) (.receive limit)
    match received with
    | .item manifests => sync { l with current := manifests }
    | .nothing => sync l
    | .ended => return { l with more := false }
  else
    let _ ← ask (I := loopCalls) (.waitUntil limit)
    sync l

end SyncLoop

end Node

end ControlPlane
