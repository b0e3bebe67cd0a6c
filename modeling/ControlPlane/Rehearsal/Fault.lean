import ControlPlane.Engine.Call
import ControlPlane.Store.Call

/-!
# Planned faults

A fault says which calls fail, with which error. It may let some of them pass first and may be used
up. Of several faults the first that is due decides, and only it is used up.
-/

namespace ControlPlane.Rehearsal

/-- A planned failure of calls. The call that fails is not carried out, so a fault never leaves
anything half done. -/
structure Fault where
  /-- The name of the calls that fail. -/
  method : String
  /-- What the calls are about; a fault without a subject is about every call of its name. -/
  subject : Option String := none
  /-- How many calls pass first. Calls that another fault makes fail count among them as well. -/
  skip : Nat := 0
  /-- How many calls fail after that; all if it is not said. -/
  times : Option Nat := none
  error : Error
deriving DecidableEq, Inhabited

namespace Fault

/-- Whether the fault is about a call. -/
def concerns (f : Fault) (method subject : String) : Bool :=
  f.method == method && (f.subject.isNone || f.subject == some subject)

/-- The error of a call under a plan, and the plan that is left. The faults behind the one that is
due are left as they are, also if the call would have counted for them. -/
def strike (method subject : String) : List Fault → Option Error × List Fault
  | [] => (none, [])
  | f :: plan =>
    let (later, left) := strike method subject plan
    if !f.concerns method subject then (later, f :: left)
    else if 0 < f.skip then (later, { f with skip := f.skip - 1 } :: left)
    else
      match f.times with
      | none => (some f.error, f :: plan)
      | some 0 => (later, f :: left)
      | some (times + 1) => (some f.error, { f with times := some times } :: plan)

/-- The name of a call of a store, and what it is about. -/
def ofStoreCall : StoreCall → String × String
  | .get key => ("get", key)
  | .list dir _ => ("list", dir)
  | .set key .. => ("set", key)
  | .create key .. => ("create", key)
  | .delete key _ => ("delete", key)
  | .addChild dir .. => ("add_child", dir)
  | .watch key _ => ("watch", key)

/-- The name of a call of an engine, and what it is about. A creation is about its image, since
names have random parts. -/
def ofEngineCall : Engine.Call → String × String
  | .ping => ("ping", "")
  | .list => ("list", "")
  | .inspect id => ("inspect", id)
  | .pull image => ("pull", image)
  | .create spec => ("create", spec.image)
  | .start id => ("start", id)
  | .stop id _ => ("stop", id)

end Fault

end ControlPlane.Rehearsal
