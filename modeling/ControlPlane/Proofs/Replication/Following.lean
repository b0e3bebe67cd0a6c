import ControlPlane.Proofs.Controller
import ControlPlane.Proofs.Program.Exchanges
import ControlPlane.Proofs.Registry.Keys
import ControlPlane.Proofs.Store.Watching
import ControlPlane.Replication.Manager
import Mathlib.Data.List.DropRight

/-!
# Which controllers the manager reconciles as they change

The driver that follows changes subscribes to the directory of the controllers and makes a pass for
every controller that a change carries. Others write and remove controllers, and do anything else to
the store, at any moment, also in the middle of a pass, which takes as long as it takes and comes to
anything. A pass under the lock is therefore one call here, which may be answered in any way and at
any time; `Following.round_eq_expand` says that the driver is nothing but its outline with that call
carried out.

What one subscription delivers decides which passes are made while it is open: one for each change
that carries a controller, in order. What it delivers is what was written, as long as it is open,
and so the passes that were made, with those that are still to be made, are those of the controllers
that were written since it was opened. A writer that removes a controller, or fails, adds nothing.

An empty id is excluded where controllers are written. Its document would have the directory itself
as its key, with a slash behind it, and does not lie under it.

## Main definitions

* `driverCalls`, `Following.outline`: the driver with its passes as single calls
* `Driver`, `Driver.Step`, `Driver.Reachable`: a driver among writers
* `Driver.due`: the call that is due after a log
* `Driver.Answering`: what the passes have to do with what was written

## Main results

* `Following.round_eq_expand`: the outline is the driver
* `Driver.heeds_outline`: a round makes the calls that are due
* `Driver.Lawful.step`, `Driver.Reachable.lawful`: what every run keeps
* `Driver.answers_writes`: one pass for each controller that is written, in order
-/

namespace ControlPlane.Replication

open Program

/-! ### The outline of the driver -/

/-- The calls of the driver. Taking the lock and everything under it is one of them. -/
inductive DriverCall where
  /-- Subscribes to the directory of the controllers. -/
  | subscribe
  | wait (d : Span)
  /-- Waits for the next change of a subscription; none if it has ended. -/
  | receive (w : WatchId)
  /-- Makes a pass for a controller under the lock. -/
  | reconcile (c : Controller)

/-- The answer to a call. -/
@[reducible] def DriverCall.Answer : DriverCall → Type
  | subscribe => Except Error WatchId
  | wait _ => Unit
  | receive _ => Option Change
  | reconcile _ => Except Error Outcome

/-- The interface of the driver. -/
@[reducible] def driverCalls : Interface where
  Call := DriverCall
  Answer := DriverCall.Answer

/-- The calls of the manager that carry out a call of the driver. -/
def DriverCall.carry : (c : DriverCall) → Program managerCalls c.Answer
  | subscribe => ask (I := managerCalls) (.store (.watch Keys.controllersDir true))
  | wait d => ask (I := managerCalls) (.wait d)
  | receive w => ask (I := managerCalls) (.receive w)
  | reconcile c => Replication.reconcile c

/-- The controller that a change carries, if it can be read. That there is none to be made a pass
for and that there is one that cannot be read come to the same for the driver, which goes on with
the next change. -/
def carried (x : Change) : Option Controller := (controllerOf x).toOption.join

/-- A change carries a controller if a key was set to a text that reads as one. Removed and expired
keys carry none, whatever text is reported with them. -/
theorem carried_eq_some_iff {x : Change} {c : Controller} :
    carried x = some c ↔
      x.action = .set ∧ (Json.ofText? x.node.value).bind Controller.read = some c := by
  rw [carried, controllerOf]
  cases haction : x.action with
  | set => cases hread : (Json.ofText? x.node.value).bind Controller.read <;> simp [Except.toOption]
  | create | delete | expire => simp [Except.toOption]

namespace Following

/-- What is done about what a change carries: a pass, or nothing. -/
def heed (w : WatchId) : Option Controller → Program driverCalls Following
  | some c => do
    let _ ← ask (I := driverCalls) (.reconcile c)
    return receiving w
  | none => return receiving w

/-- One round with passes as single calls. -/
def outline (s : ManagerSettings) : Following → Program driverCalls Following
  | subscribing => do
    match (← ask (I := driverCalls) .subscribe : Except Error WatchId) with
    | .ok w => return receiving w
    | .error _ => do
      let _ ← ask (I := driverCalls) (.wait s.watchRetryInterval)
      return subscribing
  | receiving w => do
    match (← ask (I := driverCalls) (.receive w) : Option Change) with
    | some x => heed w (carried x)
    | none => do
      let _ ← ask (I := driverCalls) (.wait s.watchRetryInterval)
      return subscribing

theorem expand_heed (w : WatchId) (x : Change) :
    (heed w (carried x)).expand DriverCall.carry =
      match controllerOf x with
      | .ok (some c) => (reconcile c).bind fun _ => done (receiving w)
      | _ => done (receiving w) := by
  rw [carried]
  cases controllerOf x with
  | error e => rfl
  | ok found => cases found <;> rfl

/-- **The outline is the driver.** What is said of calls to `reconcile` is therefore said of passes
under the lock. -/
theorem round_eq_expand (s : ManagerSettings) (stage : Following) :
    stage.round s = (stage.outline s).expand DriverCall.carry := by
  cases stage with
  | subscribing =>
    refine congrArg (call (I := managerCalls) _) (funext fun opened => ?_)
    cases opened <;> rfl
  | receiving w =>
    refine congrArg (call (I := managerCalls) _) (funext fun change => ?_)
    cases change with
    | none => rfl
    | some x => exact (expand_heed w x).symm

end Following

/-! ### A driver among writers -/

/-- The exchanges of the driver, oldest first. -/
abbrev DriverLog := List (Exchange driverCalls)

/-- A driver at work, the store that it follows, and what it has done so far. -/
structure Driver where
  history : History
  work : Program driverCalls Following
  log : DriverLog
  /-- The controllers that were written since its subscription was opened. -/
  asked : List Controller

namespace Driver

/-! ### Reading a log -/

/-- The stage after an exchange. Passes and waits leave it where it is. -/
def stageAfter (stage : Following) : Exchange driverCalls → Following
  | ⟨.subscribe, .ok w⟩ => .receiving w
  | ⟨.receive _, none⟩ => .subscribing
  | _ => stage

/-- The stage after a log, which is told by what was answered alone. -/
def stage (log : DriverLog) : Following := log.foldl stageAfter .subscribing

/-- Whether a subscription was opened. -/
def opens : Exchange driverCalls → Bool
  | ⟨.subscribe, .ok _⟩ => true
  | _ => false

/-- Whether there is no subscription any more, or none was opened. -/
def loses : Exchange driverCalls → Bool
  | ⟨.subscribe, .error _⟩ => true
  | ⟨.receive _, none⟩ => true
  | _ => false

/-- The change that was delivered. -/
def heard : Exchange driverCalls → Option Change
  | ⟨.receive _, some x⟩ => some x
  | _ => none

/-- The controller that a pass was made for, however the pass ended. -/
def reconciled : Exchange driverCalls → Option Controller
  | ⟨.reconcile c, _⟩ => some c
  | _ => none

/-- What has happened since a subscription was opened last. -/
def since (log : DriverLog) : DriverLog := log.rtakeWhile fun e => !opens e

/-- What the last subscription has delivered. -/
def delivered (log : DriverLog) : List Change := (since log).filterMap heard

/-- The controllers that passes were made for since then. -/
def passes (log : DriverLog) : List Controller := (since log).filterMap reconciled

/-- The controller that the change carries that was just delivered. -/
def owed (log : DriverLog) : Option Controller := (log.getLast?.bind heard).bind carried

/-- Whether there was just found to be no subscription. -/
def lost (log : DriverLog) : Bool := log.getLast?.any loses

/-- The call that begins a round. -/
def opening : Following → DriverCall
  | .subscribing => .subscribe
  | .receiving w => .receive w

/-- The call that is due after a log: the pass that is owed, else the wait behind a loss, else the
next thing to be followed. -/
def due (s : ManagerSettings) (log : DriverLog) : DriverCall :=
  match owed log with
  | some c => .reconcile c
  | none => if lost log then .wait s.watchRetryInterval else opening (stage log)

section Reading

variable {s : ManagerSettings} {log : DriverLog} {e : Exchange driverCalls}

theorem stage_concat : stage (log ++ [e]) = stageAfter (stage log) e :=
  List.foldl_concat ..

theorem since_concat : since (log ++ [e]) = if opens e then [] else since log ++ [e] := by
  rw [since, List.rtakeWhile_concat]
  cases opens e <;> rfl

theorem delivered_concat (h : opens e = false) :
    delivered (log ++ [e]) = delivered log ++ (heard e).toList := by
  rw [delivered, since_concat, h]
  cases hheard : heard e <;> simp [delivered, hheard]

theorem delivered_concat_opened {w : WatchId} : delivered (log ++ [⟨.subscribe, .ok w⟩]) = [] := by
  rw [delivered, since_concat]
  rfl

theorem passes_concat (h : opens e = false) :
    passes (log ++ [e]) = passes log ++ (reconciled e).toList := by
  rw [passes, since_concat, h]
  cases hreconciled : reconciled e <;> simp [passes, hreconciled]

theorem owed_concat : owed (log ++ [e]) = (heard e).bind carried := by
  rw [owed, List.getLast?_concat, Option.bind_some]

theorem lost_concat : lost (log ++ [e]) = loses e := by
  rw [lost, List.getLast?_concat, Option.any_some]

/-- A pass is due when a change has just been delivered that carries a controller. -/
theorem due_eq_reconcile_iff {c : Controller} : due s log = .reconcile c ↔ owed log = some c := by
  rw [due]
  cases owed log with
  | some c' => simp
  | none => cases lost log <;> cases stage log <;> simp [opening]

theorem stage_of_due {w : WatchId} (h : due s log = .receive w) : stage log = .receiving w := by
  rw [due] at h
  split at h
  · cases h
  · split at h
    · cases h
    · cases hstage : stage log with
      | subscribing => rw [hstage] at h; cases h
      | receiving w' => rw [hstage] at h; cases h; rfl

theorem stage_of_due_subscribe (h : due s log = .subscribe) : stage log = .subscribing := by
  rw [due] at h
  split at h
  · cases h
  · split at h
    · cases h
    · cases hstage : stage log with
      | subscribing => rfl
      | receiving w => rw [hstage] at h; cases h

/-- Without a subscription the driver waits, before anything else. -/
theorem due_concat_of_loses (h : loses e = true) :
    due s (log ++ [e]) = .wait s.watchRetryInterval := by
  have hheard : heard e = none := by
    unfold loses at h
    split at h
    · rfl
    · rfl
    · cases h
  rw [due, owed_concat, hheard, lost_concat, h]
  rfl

theorem due_eq_opening (howed : owed log = none) (hlost : lost log = false) :
    due s log = opening (stage log) := by
  rw [due, howed, hlost]
  rfl

/-- An exchange that leaves nothing to be done leads back to what is followed. -/
theorem due_concat (hheard : (heard e).bind carried = none) (hloses : loses e = false) :
    due s (log ++ [e]) = opening (stageAfter (stage log) e) := by
  rw [due_eq_opening (owed_concat.trans hheard) (lost_concat.trans hloses), stage_concat]

theorem stage_concat_of_loses (hdue : e.call = due s log) (h : loses e = true) :
    stage (log ++ [e]) = .subscribing := by
  rw [stage_concat]
  unfold loses at h
  split at h
  · exact stage_of_due_subscribe hdue.symm
  · rfl
  · cases h

end Reading

/-! ### One round -/

/-- Where the driver is between two rounds. Nothing is owed there, and no wait is due. -/
def Between (l : Following) (log : DriverLog) : Prop :=
  l = stage log ∧ owed log = none ∧ lost log = false

section Round

variable {s : ManagerSettings} {l : Following} {log : DriverLog} {e : Exchange driverCalls}

/-- An exchange that brings nothing and loses nothing ends a round. -/
theorem between_concat (hl : l = stageAfter (stage log) e) (hheard : (heard e).bind carried = none)
    (hloses : loses e = false) : Between l (log ++ [e]) :=
  ⟨hl.trans stage_concat.symm, owed_concat.trans hheard, lost_concat.trans hloses⟩

/-- Without a subscription, the round ends with a wait. -/
theorem heeds_wait (hstage : stageAfter (stage log) e = .subscribing) (hloses : loses e = true) :
    (call (I := driverCalls) (.wait s.watchRetryInterval) fun _ => done Following.subscribing).Heeds
      (due s) Between (log ++ [e]) :=
  ⟨(due_concat_of_loses hloses).symm, fun _ =>
    between_concat (hstage.symm.trans stage_concat.symm) rfl rfl⟩

/-- What is done about a change is what is due. -/
theorem heeds_heed {w : WatchId} {x : Change} (hstage : stage log = .receiving w) :
    (Following.heed w (carried x)).Heeds (due s) Between (log ++ [⟨.receive w, some x⟩]) := by
  have hstay : stage (log ++ [⟨.receive w, some x⟩]) = .receiving w := stage_concat.trans hstage
  cases hx : carried x with
  | none => exact between_concat hstage.symm hx rfl
  | some c =>
    have howed : owed (log ++ [⟨.receive w, some x⟩]) = some c := owed_concat.trans hx
    refine ⟨(due_eq_reconcile_iff.mpr howed).symm, fun _ => ?_⟩
    exact between_concat hstay.symm rfl rfl

/-- **A round makes the calls that are due,** and ends where the next one begins. -/
theorem heeds_outline (h : Between l log) : (l.outline s).Heeds (due s) Between log := by
  obtain ⟨hl, howed, hlost⟩ := h
  have hdue : due s log = opening l := by rw [due_eq_opening howed hlost, ← hl]
  cases l with
  | subscribing =>
    refine ⟨hdue.symm, fun opened => ?_⟩
    cases opened with
    | ok w => exact between_concat rfl rfl rfl
    | error e => exact heeds_wait hl.symm rfl
  | receiving w =>
    refine ⟨hdue.symm, fun found => ?_⟩
    cases found with
    | some x => exact heeds_heed hl.symm
    | none => exact heeds_wait rfl rfl

end Round

/-! ### What changes carry -/

/-- Whether a key is the directory of the controllers, or lies under it. -/
def concerns (key : String) : Bool :=
  key == Keys.controllersDir || Path.isUnder Keys.controllersDir key true

/-- The controllers that some changes write, one for each change, in order. -/
def written (changes : List Change) : List Controller :=
  (changes.filter fun x => concerns x.node.key).filterMap carried

theorem written_append (changes more : List Change) :
    written (changes ++ more) = written changes ++ written more := by
  rw [written, List.filter_append, List.filterMap_append]
  rfl

/-- Only a key that was set carries a controller. -/
theorem written_of_action {changes : List Change} (h : ∀ x ∈ changes, x.action ≠ .set) :
    written changes = [] := by
  refine List.filterMap_eq_nil_iff.mpr fun x hx => ?_
  have haction := h x (List.mem_of_mem_filter hx)
  exact Option.eq_none_iff_forall_ne_some.mpr fun c hc => haction (carried_eq_some_iff.mp hc).1

theorem action_removals {action : Action} {index : Nat} {keys : List String} :
    ∀ x ∈ Contents.removals action index keys, x.action = action := by
  induction keys generalizing index with
  | nil => exact nofun
  | cons key keys ih =>
    intro x hx
    rcases List.mem_cons.mp hx with rfl | hx
    · rfl
    · exact ih x hx

theorem written_purge (c : Contents) (now : Moment) : written (c.purge now).1 = [] :=
  written_of_action fun x hx => by rw [action_removals x hx]; decide

/-- A document lies under the directory of the controllers unless its id is empty. -/
theorem concerns_controller {id : String} (hid : id ≠ "") :
    concerns (Keys.controller id) = true := by
  have hunder : Path.isUnder Keys.controllersDir (Keys.controller id) true = true := by
    refine Keys.isUnder_iff.mpr ⟨id.toList, ?_, by simp [hid]⟩
    rw [Keys.dirLead_controllersDir, Keys.toList_controller]
  rw [concerns, hunder, Bool.or_true]

/-- The stored text of a controller carries it, under whatever key and index. -/
theorem carried_encode (c : Controller) (key : String) (index : Nat) :
    carried ⟨.set, ⟨key, c.encode, index⟩⟩ = some c :=
  carried_eq_some_iff.mpr ⟨rfl, c.read_encode⟩

/-- **What is written is carried,** once, also if entries expire in the same call. -/
theorem written_setController {c : Controller} (hid : c.id ≠ "") (now : Moment) (d : Contents) :
    written ((StoreCall.set (Keys.controller c.id) c.encode none).changes now d).1 = [c] := by
  change written ((d.purge now).1 ++ [⟨.set, ⟨Keys.controller c.id, c.encode, _⟩⟩]) = [c]
  rw [written_append, written_purge, List.nil_append]
  simp [written, concerns_controller hid, carried_encode]

theorem written_deleteController (now : Moment) (id : String) (d : Contents) :
    written ((StoreCall.delete (Keys.controller id) false).changes now d).1 = [] := by
  change written (Contents.changed now (·.delete (Keys.controller id) false) d).1 = []
  rw [Contents.changed, Contents.delete_eq]
  split
  · rename_i heq
    split at heq
    · cases heq
    · cases heq
      rw [written_append, written_purge, List.nil_append]
      exact written_of_action fun x hx => by rw [action_removals x hx]; decide
  · exact written_purge d now

/-! ### Writers -/

/-- The history after some work at the store. -/
def made {α : Type} (now : Moment) (w : StoreWork α) (h : History) : History :=
  (w.run.run (fun c h => ((h.store.perform now c).1, h.after (.call now c))) h).2

/-- Work of one call makes that call. -/
theorem made_eq_after {α : Type} {w : StoreWork α} {c : StoreCall}
    {f : Except Error c.Result → Except Error α}
    (hw : w.run = .call (I := storeCalls) c fun r => .done (f r)) (now : Moment) (h : History) :
    made now w h = h.after (.call now c) := by
  rw [made, hw]
  rfl

theorem made_setController (now : Moment) (c : Controller) (h : History) :
    made now (Registry.setController c) h =
      h.after (.call now (.set (Keys.controller c.id) c.encode none)) := by
  refine made_eq_after (f := fun r => r.map fun _ => ()) ?_ now h
  refine congrArg (call (I := storeCalls) _) (funext fun r => ?_)
  cases r <;> rfl

theorem made_deleteController (now : Moment) (id : String) (h : History) :
    made now (Registry.deleteController id) h =
      h.after (.call now (.delete (Keys.controller id) false)) := by
  refine made_eq_after (f := fun r => match Work.noneIfAbsent r with
    | .ok (some _) => .ok ()
    | .ok none => .error (.controllerNotFound id)
    | .error e => .error e) ?_ now h
  change Program.bind (Work.orNone _).run _ = _
  rw [Work.run_orNone]
  refine congrArg (call (I := storeCalls) _) (funext fun r => ?_)
  change ExceptT.bindCont _ (Work.noneIfAbsent r) = _
  rcases Work.noneIfAbsent r with e | _ | _ <;> rfl

/-- What a call of the driver may be answered, and what becomes of the store. A subscription may
fail to be opened, and a pass comes to anything; what it does to the store is among what others
do. -/
def Finds (h : History) : (c : DriverCall) → c.Answer → History → Prop
  | .subscribe, opened, h' =>
    (∃ now, opened = (h.store.perform now (.watch Keys.controllersDir true)).1 ∧
        h' = h.after (.call now (.watch Keys.controllersDir true))) ∨
      ∃ e, opened = .error e ∧ h' = h
  | .wait _, _, h' => h' = h
  | .receive w, found, h' =>
    (h.store.modifyFeed w Feed.receive).1 = found.elim .ended .item ∧ h' = h.after (.receive w)
  | .reconcile _, _, h' => h' = h

/-- A driver before it starts, beside an empty store. -/
def start : Driver := { history := {}, work := .done .subscribing, log := [], asked := [] }

/-- What may happen next. Others do anything but receive from the subscription of the driver. -/
inductive Step (s : ManagerSettings) : Driver → Driver → Prop
  | write {a : Driver} (now : Moment) (c : Controller) : c.id ≠ "" →
      Step s a { a with
        history := made now (Registry.setController c) a.history, asked := a.asked ++ [c] }
  | remove (a : Driver) (now : Moment) (id : String) :
      Step s a { a with history := made now (Registry.deleteController id) a.history }
  | other {a : Driver} (m : Move) : (∀ w, stage a.log = .receiving w → m ≠ .receive w) →
      Step s a { a with
        history := a.history.after m
        asked := a.asked ++ written (m.changes a.history.store.contents) }
  | answer {a : Driver} {c : DriverCall} {next : c.Answer → Program driverCalls Following}
      {r : c.Answer} {h : History} : a.work = .call c next → Finds a.history c r h →
      Step s a {
        history := h, work := next r, log := a.log ++ [⟨c, r⟩]
        asked := if opens ⟨c, r⟩ then [] else a.asked }
  | turn {a : Driver} {l : Following} : a.work = .done l → Step s a { a with work := l.outline s }

/-- The states of a driver among writers, at any moment of a run. -/
inductive Reachable (s : ManagerSettings) : Driver → Prop
  | start : Reachable s start
  | step {a b : Driver} : Reachable s a → Step s a b → Reachable s b

/-! ### What every run keeps -/

/-- The driver has the subscription `w`, of which it was delivered some changes, and the controllers
that were written since it was opened are those that are due to it. -/
def Connected (h : History) (w : WatchId) (delivered : List Change) (asked : List Controller) :
    Prop :=
  ∃ r sub, h.Has w r sub ∧ r.key = Keys.controllersDir ∧ r.recursive = true ∧
    r.received = delivered ∧ (r.due h.log).filterMap carried = asked

/-- What is true of a driver in every state. -/
structure Lawful (s : ManagerSettings) (a : Driver) : Prop where
  heeds : a.work.Heeds (due s) Between a.log
  asDue : AsDue (due s) a.log
  sound : a.history.Sound
  connected : ∀ w, stage a.log = .receiving w →
    Connected a.history w (delivered a.log) a.asked

section Keeping

variable {s : ManagerSettings} {a b : Driver} {h h' : History} {w : WatchId}
  {deliveries : List Change} {asked : List Controller}

/-- What a subscription to the directory asks for is what concerns the driver. -/
theorem wanted_eq {r : Reader} (hkey : r.key = Keys.controllersDir)
    (hrecursive : r.recursive = true)
    (changes : List Change) :
    r.wanted changes = changes.filter fun x => concerns x.node.key := by
  have hwatched : r.watched = Keys.controllersDir := by
    rw [Reader.watched, hkey]
    decide
  refine List.filter_congr fun x _ => ?_
  rw [Reader.wants, hwatched, hrecursive, Bool.true_and, concerns]

/-- **Others add what they write,** to what is buffered and to what is asked for alike. -/
theorem Connected.after (hconnected : Connected h w deliveries asked) (hsound : h.Sound) {m : Move}
    (hm : m ≠ .receive w) :
    Connected (h.after m) w deliveries (asked ++ written (m.changes h.store.contents)) := by
  obtain ⟨r, sub, hhas, hkey, hrecursive, hreceived, hasked⟩ := hconnected
  obtain ⟨r', sub', hhas', hturn⟩ := History.after_at hhas m
  obtain rfl := hturn.reader_eq hm
  refine ⟨r', sub', hhas', hkey, hrecursive, hreceived, ?_⟩
  rw [History.log_after, Reader.due_append (hsound.follows w r' sub hhas).opened,
    List.filterMap_append, hasked, wanted_eq hkey hrecursive]
  rfl

/-- What is received is delivered. -/
theorem Connected.receive (hconnected : Connected h w deliveries asked) {x : Change}
    (hx : (h.store.modifyFeed w Feed.receive).1 = .item x) :
    Connected (h.after (.receive w)) w (deliveries ++ [x]) asked := by
  obtain ⟨r, sub, hhas, hkey, hrecursive, rfl, hasked⟩ := hconnected
  obtain ⟨sub', hhas'⟩ := History.has_received hhas hx
  refine ⟨_, sub', hhas', hkey, hrecursive, rfl, ?_⟩
  rw [History.log_after, Move.changes, List.append_nil]
  exact hasked

/-- A subscription that was just opened has delivered nothing, and nothing is due to it. -/
theorem connected_opened (hsound : h.Sound) (now : Moment) :
    Connected (h.after (.call now (.watch Keys.controllersDir true))) h.store.subscriptions.length
      [] [] := by
  rw [← hsound.length]
  refine ⟨_, _, History.has_opened hsound now _ _, rfl, rfl, rfl, ?_⟩
  rw [History.log_after, Reader.due, List.drop_append_of_le_length (Nat.le_refl _),
    List.drop_length]
  rfl

theorem Finds.sound {c : DriverCall} {r : c.Answer} (hfinds : Finds h c r h') (hsound : h.Sound) :
    h'.Sound := by
  cases c with
  | subscribe =>
    rcases hfinds with ⟨now, -, rfl⟩ | ⟨e, -, rfl⟩
    · exact hsound.after _
    · exact hsound
  | receive w => rw [hfinds.2]; exact hsound.after _
  | wait d => rw [show h' = h from hfinds]; exact hsound
  | reconcile c => rw [show h' = h from hfinds]; exact hsound

/-- An exchange that is not about the subscription. -/
theorem Lawful.connected_quiet (hlawful : Lawful s a) {e : Exchange driverCalls}
    (hstage : stageAfter (stage a.log) e = stage a.log) (hopens : opens e = false)
    (hheard : heard e = none) (hw : stage (a.log ++ [e]) = .receiving w) :
    Connected a.history w (delivered (a.log ++ [e])) (if opens e then [] else a.asked) := by
  rw [delivered_concat hopens, hheard, Option.toList_none, List.append_nil, hopens]
  exact hlawful.connected w (hstage.symm.trans (stage_concat.symm.trans hw))

/-- **What the driver learns** is what its subscription delivers. -/
theorem Lawful.connected_answered (hlawful : Lawful s a) {c : DriverCall} {r : c.Answer}
    (hdue : c = due s a.log) (hfinds : Finds a.history c r h')
    (hw : stage (a.log ++ [⟨c, r⟩]) = .receiving w) :
    Connected h' w (delivered (a.log ++ [⟨c, r⟩])) (if opens ⟨c, r⟩ then [] else a.asked) := by
  cases c with
  | subscribe =>
    rcases hfinds with ⟨now, hopened, rfl⟩ | ⟨e, rfl, rfl⟩
    · obtain rfl : r = .ok a.history.store.subscriptions.length := hopened
      obtain rfl : a.history.store.subscriptions.length = w :=
        Following.receiving.inj (stage_concat.symm.trans hw)
      rw [delivered_concat_opened]
      exact connected_opened hlawful.sound now
    · exact hlawful.connected_quiet rfl rfl rfl hw
  | wait d =>
    obtain rfl : h' = a.history := hfinds
    exact hlawful.connected_quiet rfl rfl rfl hw
  | reconcile c =>
    obtain rfl : h' = a.history := hfinds
    exact hlawful.connected_quiet rfl rfl rfl hw
  | receive w' =>
    obtain ⟨hfound, rfl⟩ := hfinds
    cases r with
    | none => cases (stage_concat.symm.trans hw)
    | some x =>
      have hstage := stage_of_due hdue.symm
      obtain rfl : w' = w :=
        Following.receiving.inj (hstage.symm.trans (stage_concat.symm.trans hw))
      rw [delivered_concat rfl]
      exact (hlawful.connected w' hstage).receive hfound

theorem lawful_start : Lawful s start where
  heeds := ⟨rfl, rfl, rfl⟩
  asDue past e rest h := by cases past <;> cases h
  sound := History.sound_start
  connected w h := by cases h

/-- What others do adds what they write. -/
theorem Lawful.moved (h : Lawful s a) {m : Move}
    (hm : ∀ w, stage a.log = .receiving w → m ≠ .receive w)
    (hasked : a.asked ++ written (m.changes a.history.store.contents) = asked) :
    Lawful s { a with history := a.history.after m, asked := asked } :=
  { h with
    sound := h.sound.after m
    connected := fun w hw => hasked ▸ (h.connected w hw).after h.sound (hm w hw) }

/-- **Whatever happens next keeps it.** Either others move, or the call that is due is answered. -/
theorem Lawful.step (h : Lawful s a) (hstep : Step s a b) : Lawful s b := by
  cases hstep with
  | write now c hid =>
    rw [made_setController]
    exact h.moved (fun _ _ => nofun) (congrArg _ (written_setController hid now _))
  | remove now id =>
    rw [made_deleteController]
    refine h.moved (fun _ _ => nofun) ?_
    rw [Move.changes, written_deleteController, List.append_nil]
  | other m hm => exact h.moved hm rfl
  | @answer c next r h' hcall hfinds =>
    have hheeds := h.heeds
    rw [hcall] at hheeds
    obtain ⟨hdue, hnext⟩ := hheeds
    exact
      { heeds := hnext r
        asDue := asDue_concat.mpr ⟨h.asDue, hdue⟩
        sound := hfinds.sound h.sound
        connected := fun w hw => h.connected_answered hdue hfinds hw }
  | turn hdone =>
    have hheeds := h.heeds
    rw [hdone] at hheeds
    exact { h with heeds := heeds_outline hheeds }

theorem Reachable.lawful (h : Reachable s a) : Lawful s a := by
  induction h with
  | start => exact lawful_start
  | step _ hstep ih => exact ih.step hstep

end Keeping

/-! ### Passes and writes -/

section Logs

variable {s : ManagerSettings} {log past rest : DriverLog} {e : Exchange driverCalls}

/-- **One pass each.** The passes since the subscription was opened, and the one that is owed, are
for the controllers that its changes carry. -/
theorem passes_append_owed (h : AsDue (due s) log) :
    passes log ++ (owed log).toList = (delivered log).filterMap carried := by
  induction log using List.reverseRecOn with
  | nil => rfl
  | append_singleton log e ih =>
    obtain ⟨hlog, hdue⟩ := asDue_concat.mp h
    have hnone (hreconcile : ∀ c, e.call ≠ .reconcile c) : owed log = none := by
      cases howed : owed log with
      | none => rfl
      | some c => exact absurd (hdue.trans (due_eq_reconcile_iff.mpr howed)) (hreconcile c)
    cases hopens : opens e with
    | true =>
      have hheard : heard e = none := by
        unfold opens at hopens
        split at hopens
        · rfl
        · cases hopens
      rw [passes, delivered, since_concat, hopens, owed_concat, hheard]
      rfl
    | false =>
      have hlast := ih hlog
      rw [passes_concat hopens, delivered_concat hopens, owed_concat, List.filterMap_append,
        ← hlast, List.append_assoc, List.append_assoc]
      refine congrArg (passes log ++ ·) ?_
      obtain ⟨c, r⟩ := e
      cases c with
      | reconcile c =>
        rw [due_eq_reconcile_iff.mp hdue.symm]
        rfl
      | receive w =>
        rw [hnone nofun]
        cases r with
        | none => rfl
        | some x => cases hx : carried x <;> simp [reconciled, heard, hx]
      | subscribe => rw [hnone nofun]; rfl
      | wait d => rw [hnone nofun]; rfl

section Next

variable (h : AsDue (due s) log)
include h

/-- A change that carries a controller is answered by a pass. -/
theorem call_of_carried {w : WatchId} {x : Change} {c : Controller}
    (hlog : log = past ++ ⟨.receive w, some x⟩ :: e :: rest) (hx : carried x = some c) :
    e.call = .reconcile c := by
  rw [h.next hlog, due_eq_reconcile_iff, owed_concat]
  exact hx

/-- One that carries none is passed over, without a call for it. -/
theorem call_of_carried_none {w : WatchId} {x : Change}
    (hlog : log = past ++ ⟨.receive w, some x⟩ :: e :: rest) (hx : carried x = none) :
    e.call = .receive w := by
  have hstage := stage_of_due (h past ⟨.receive w, some x⟩ (e :: rest) hlog).symm
  have hdue : due s (past ++ [⟨.receive w, some x⟩]) = opening (stage past) := due_concat hx rfl
  exact (h.next hlog).trans (hdue.trans (congrArg opening hstage))

/-- However a pass ends, the next change is awaited. -/
theorem call_of_reconcile {w : WatchId} {x : Change} {c : Controller} {r : Except Error Outcome}
    (hlog : log = past ++ ⟨.receive w, some x⟩ :: ⟨.reconcile c, r⟩ :: e :: rest) :
    e.call = .receive w := by
  have hstage := stage_of_due (h past ⟨.receive w, some x⟩ _ hlog).symm
  have hstay : stage (past ++ [⟨.receive w, some x⟩]) = .receiving w := stage_concat.trans hstage
  have hdue : due s (past ++ [⟨.receive w, some x⟩] ++ [⟨.reconcile c, r⟩])
      = opening (stage (past ++ [⟨.receive w, some x⟩])) := due_concat rfl rfl
  exact (h.next (hlog.trans (List.append_cons ..))).trans (hdue.trans (congrArg opening hstay))

/-- Without a subscription the driver waits and subscribes, as far as the log goes. -/
theorem calls_of_loses (hlog : log = past ++ e :: rest) (hloses : loses e = true) :
    (rest.map Exchange.call).take 2 <+: [.wait s.watchRetryInterval, .subscribe] := by
  match rest with
  | [] => exact List.nil_prefix
  | [⟨c, r⟩] =>
    obtain rfl : c = .wait s.watchRetryInterval := (h.next hlog).trans (due_concat_of_loses hloses)
    exact List.prefix_append [_] [_]
  | ⟨c, r⟩ :: ⟨c', r'⟩ :: rest =>
    obtain rfl : c = .wait s.watchRetryInterval := (h.next hlog).trans (due_concat_of_loses hloses)
    have hstage := stage_concat_of_loses (h past e _ hlog) hloses
    have hdue : due s (past ++ [e] ++ [⟨.wait s.watchRetryInterval, r⟩])
        = opening (stage (past ++ [e])) := due_concat rfl rfl
    obtain rfl : c' = .subscribe := (h.next (hlog.trans (List.append_cons ..))).trans
      (hdue.trans (congrArg opening hstage))
    exact List.prefix_rfl

end Next

end Logs

/-- What the passes of a driver have to do with its changes and with what was written. -/
structure Answering (s : ManagerSettings) (a : Driver) : Prop where
  /-- What a change carries is the controller that is read from the text to which a key was set, and
  nothing else: a change of another kind, or with a text that does not read as one, carries none. -/
  carries : ∀ x c, carried x = some c ↔
    x.action = .set ∧ (Json.ofText? x.node.value).bind Controller.read = some c
  /-- The passes since the subscription was opened, and the one that is still owed, are for the
  controllers carried by the changes that it delivered: one each, in order. -/
  oneEach : passes a.log ++ (owed a.log).toList = (delivered a.log).filterMap carried
  /-- A change that carries a controller is answered by a pass at once. -/
  answered : ∀ past w x c e rest, a.log = past ++ ⟨.receive w, some x⟩ :: e :: rest →
    carried x = some c → e.call = .reconcile c
  /-- Any other change is passed over. -/
  passedOver : ∀ past w x e rest, a.log = past ++ ⟨.receive w, some x⟩ :: e :: rest →
    carried x = none → e.call = .receive w
  /-- However a pass ends, the next change is awaited. -/
  goesOn : ∀ past w x c r e rest,
    a.log = past ++ ⟨.receive w, some x⟩ :: ⟨.reconcile c, r⟩ :: e :: rest → e.call = .receive w
  /-- When the subscription has ended, or could not be opened, the next calls are a wait of the
  interval and another subscription. -/
  again : ∀ past e rest, a.log = past ++ e :: rest → loses e = true →
    (rest.map Exchange.call).take 2 <+: [.wait s.watchRetryInterval, .subscribe]
  /-- Nothing else is passed on than what was written since the subscription was opened. -/
  inOrder : ∀ w, stage a.log = .receiving w →
    passes a.log ++ (owed a.log).toList
      ++ (a.history.store.feed w).pending.filterMap carried <+: a.asked
  /-- As long as the subscription is open, everything is. -/
  complete : ∀ w, stage a.log = .receiving w → (a.history.store.feed w).isLive = true →
    passes a.log ++ (owed a.log).toList
      ++ (a.history.store.feed w).pending.filterMap carried = a.asked
  /-- The driver waits for nobody but an open subscription without changes. -/
  ready : ∀ c next, a.work = .call c next → (∃ r h, Finds a.history c r h) ∨
    ∃ w, c = .receive w ∧ (a.history.store.feed w).pending = [] ∧
      (a.history.store.feed w).isLive = true

section Answers

variable {s : ManagerSettings} {a : Driver} {h : History} {w : WatchId} {deliveries : List Change}
  {asked : List Controller}

/-- What a subscription has delivered, and what is buffered, is the beginning of what was written,
and all of it as long as it is open. -/
theorem Connected.written (hconnected : Connected h w deliveries asked) (hsound : h.Sound) :
    deliveries.filterMap carried ++ (h.store.feed w).pending.filterMap carried <+: asked ∧
      ((h.store.feed w).isLive = true →
        deliveries.filterMap carried ++ (h.store.feed w).pending.filterMap carried = asked) := by
  obtain ⟨r, sub, hhas, -, -, rfl, rfl⟩ := hconnected
  have hfollows := hsound.follows w r sub hhas
  rw [hhas.feed, ← List.filterMap_append]
  exact ⟨hfollows.inOrder.filterMap carried, fun hlive => by rw [hfollows.complete hlive]⟩

/-- A call is answered, or waits for a change. -/
theorem finds_or_waits (h : History) (c : DriverCall) : (∃ r h', Finds h c r h') ∨
    ∃ w, c = .receive w ∧ (h.store.feed w).pending = [] ∧ (h.store.feed w).isLive = true := by
  cases c with
  | subscribe => exact .inl ⟨_, _, .inl ⟨0, rfl, rfl⟩⟩
  | wait d => exact .inl ⟨(), h, rfl⟩
  | reconcile c => exact .inl ⟨.error (.controllerNotFound c.id), h, rfl⟩
  | receive w =>
    cases hpending : (h.store.feed w).pending with
    | cons x rest =>
      refine .inl ⟨some x, _, ?_, rfl⟩
      exact congrArg Prod.fst (Feed.receive_of_pending hpending)
    | nil =>
      cases hlive : (h.store.feed w).isLive with
      | true => exact .inr ⟨w, rfl, hpending, hlive⟩
      | false =>
        refine .inl ⟨none, _, ?_, rfl⟩
        have hreceive := Feed.receive_of_empty hpending
        rw [hlive] at hreceive
        exact congrArg Prod.fst hreceive

/-- **One pass for each controller that is written.** The driver is its outline, and in every state
of a run, whatever others do and however passes end, the passes of the outline answer what was
written. -/
theorem answers_writes (hrun : Reachable s a) :
    (∀ l : Following, l.round s = (l.outline s).expand DriverCall.carry) ∧ Answering s a := by
  have h := hrun.lawful
  have hpasses := passes_append_owed h.asDue
  refine ⟨Following.round_eq_expand s, ?_⟩
  exact {
    carries := fun _ _ => carried_eq_some_iff
    oneEach := hpasses
    answered := fun past w x c e rest hlog hx => call_of_carried h.asDue hlog hx
    passedOver := fun past w x e rest hlog hx => call_of_carried_none h.asDue hlog hx
    goesOn := fun past w x c r e rest hlog => call_of_reconcile h.asDue hlog
    again := fun past e rest hlog hloses => calls_of_loses h.asDue hlog hloses
    inOrder := fun w hw => by
      rw [hpasses]
      exact ((h.connected w hw).written h.sound).1
    complete := fun w hw hlive => by
      rw [hpasses]
      exact ((h.connected w hw).written h.sound).2 hlive
    ready := fun c next _ => finds_or_waits a.history c }

/-- A store whose directory of controllers is followed when a controller is written. -/
def firstWritten : History :=
  made 0 (Registry.setController { id := "a" })
    (History.after {} (.call 0 (.watch Keys.controllersDir true)))

theorem exists_carried_firstWritten : ∃ x, carried x = some { id := "a" } ∧
    (firstWritten.store.modifyFeed 0 Feed.receive).1 = .item x :=
  ⟨⟨.set, ⟨"/registry/controllers/a", Controller.encode { id := "a" }, 1⟩⟩, carried_encode _ _ _,
    by decide +kernel⟩

theorem received_afterRemoval :
    ((made 0 (Registry.deleteController "a") (firstWritten.after (.receive 0))).store.modifyFeed 0
      Feed.receive).1 = .item ⟨.delete, ⟨"/registry/controllers/a", "", 2⟩⟩ := by
  decide +kernel

/-- A controller that is written, and removed while the pass for it fails. -/
theorem answers_writes_removed :
    ∃ a, Reachable {} a ∧ a.asked = [{ id := "a" }] ∧ passes a.log = [{ id := "a" }] ∧
      (delivered a.log).length = 2 ∧ Answering {} a := by
  obtain ⟨x, hcarried, hx⟩ := exists_carried_firstWritten
  have h : Reachable {} _ := .start
  have h := h.step (.turn rfl)
  have h := h.step (.answer (c := .subscribe) (r := .ok 0) rfl (.inl ⟨0, rfl, rfl⟩))
  have h := h.step (.turn rfl)
  have h := h.step (.write 0 { id := "a" } (by decide))
  have h := h.step (.answer (c := .receive 0) (r := some x) rfl ⟨hx, rfl⟩)
  -- the pass is under way when the controller is removed
  have h := h.step (.remove _ 0 "a")
  have h := h.step (.answer (c := .reconcile { id := "a" })
    (r := .error (.controllerNotFound "a")) (congrArg (Following.heed 0) hcarried) rfl)
  have h := h.step (.turn rfl)
  have h := h.step (.answer (c := .receive 0) (r := some _) rfl ⟨received_afterRemoval, rfl⟩)
  exact ⟨_, h, rfl, rfl, rfl, (answers_writes h).2⟩

end Answers

end Driver

end ControlPlane.Replication
