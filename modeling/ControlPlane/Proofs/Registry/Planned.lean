import ControlPlane.Placement
import ControlPlane.Proofs.Registry.Listing
import ControlPlane.Proofs.Store.Passing
import Mathlib.Order.Monotone.Defs

/-!
# Listings that are made one after the other

Work that lists the tasks of several machines makes a call for each of them, while time passes and
entries come to their end. A plan says when each call is made and which calls fail; a failure that
says that there is nothing is the answer of an empty machine.

What every machine has is said of the store as it was before: the calls read, and drop what is over,
so that the listing of the third machine is not another one because two others were listed before.
This needs a clock that does not go back.

## Main definitions

* `Plan`, `Plan.answer`: when calls are made, and which fail
* `Plan.listed`, `Plan.listings`: what the listings of machines give
* `Plan.Kept`: what the calls leave of a store

## Main results

* `Plan.run_machineTasks`: what one listing gives and leaves
-/

namespace ControlPlane

open Program Registry Store

/-- When the calls of some work are made, which of them fail, and what is drawn. -/
structure Plan where
  /-- When a call is made, by its number. -/
  clock : Nat → Moment
  /-- How a call fails, if it does. -/
  fault : Nat → Option Error := fun _ => none
  turn : UInt64 := 0
  pick : (bound : Nat) → Fin (bound + 1) := fun bound => ⟨0, Nat.succ_pos bound⟩

namespace Plan

/-- A store and the number of calls made so far, after a further call. -/
def store (plan : Plan) (c : StoreCall) (x : Store × Nat) : Except Error c.Result × (Store × Nat) :=
  match plan.fault x.2 with
  | some e => (.error e, (x.1, x.2 + 1))
  | none => ((x.1.perform (plan.clock x.2) c).1, ((x.1.perform (plan.clock x.2) c).2, x.2 + 1))

/-- The answers to work on the cluster. Turns and numbers are fixed by the plan, as what is shown
does not depend on them. -/
def answer (plan : Plan) : (c : ClusterCall) → Store × Nat → c.Answer × (Store × Nat)
  | .store c, x => plan.store c x
  | .turn, x => (plan.turn, x)
  | .pick bound, x => (plan.pick bound, x)

/-- What the listing of a machine gives if it is the call of some number. -/
def listed (plan : Plan) (s : Store) (i : Nat) (m : String) : Except Error (List Task) :=
  match plan.fault i with
  | some e => if e.isNotFound then .ok [] else .error e
  | none => .ok (tasksOn (s.contents.purge (plan.clock i)).2 m)

/-- What the listings of machines give, one call after the other. -/
def listings (plan : Plan) (s : Store) : Nat → List String →
    List (String × Except Error (List Task))
  | _, [] => []
  | i, m :: machines => (m, plan.listed s i m) :: listings plan s (i + 1) machines

/-- Everything that is there after the first `i` calls was there before, and nothing more was. -/
def Kept (plan : Plan) (s : Store) (i : Nat) (u : Store) : Prop :=
  ∀ now, (∀ j < i, plan.clock j ≤ now) → Unchanged now s u

variable {plan : Plan} {s u : Store} {i : Nat} {m : String}

/-! ### One listing -/

/-- What is read of the answer to a listing. -/
def tasksOf (m : String) (r : Except Error (List Node)) : Except Error (List Task) :=
  (Work.noneIfAbsent r).map fun nodes =>
    ((nodes.getD []).filterMap fun node => (Json.ofText? node.value).bind Task.read).map
      (·.observedOn m)

/-- The listing of a machine is one call, so a fault in the plan either strikes it or not. -/
theorem run_machineTasks_eq (m : String) :
    (machineTasks m).run = .call (I := storeCalls) (.list (Keys.tasksDir m) false)
      fun r => .done (tasksOf m r) := by
  change Program.bind (Program.bind (Work.orNone (StoreWork.call _)).run _) _ = _
  rw [Work.run_orNone]
  refine congrArg (call (I := storeCalls) _) (funext fun r => ?_)
  change Program.bind (ExceptT.bindCont _ (Work.noneIfAbsent r)) _ =
    .done ((Work.noneIfAbsent r).map _)
  cases Work.noneIfAbsent r <;> rfl

/-- A directory that does not exist has no documents. -/
theorem tasksOf_perform (s : Store) (now : Moment) (m : String) :
    tasksOf m (s.perform now (.list (Keys.tasksDir m) false)).1 =
      .ok (tasksOn (s.contents.purge now).2 m) := by
  have hanswer := s.perform_list now (Keys.tasksDir m) false
  rw [contents_of_isRead now rfl] at hanswer
  rw [hanswer, tasksOn, documentsIn]
  split
  · rename_i hnone
    rw [hnone]
    rfl
  · rfl

/-- What is listed of a machine only depends on what is there at that moment. -/
theorem tasksOn_purge_congr {now : Moment} (h : Unchanged now s u) (m : String) :
    tasksOn (u.contents.purge now).2 m = tasksOn (s.contents.purge now).2 m := by
  have hentries : (u.contents.purge now).2.entries = (s.contents.purge now).2.entries := by
    refine KeyMap.ext_get? fun key => ?_
    change (u.contents.purge now).2.kept? key = (s.contents.purge now).2.kept? key
    rw [Contents.kept?_purge, Contents.kept?_purge, h key]
  rw [tasksOn, tasksOn, documentsIn, documentsIn, Contents.nodes, Contents.nodes, hentries]

/-- A call that reads, whether it fails or not, keeps what is there. -/
theorem Kept.store (h : plan.Kept s i u) {c : StoreCall} (hread : c.isRead = true) :
    ∃ v, (plan.store c (u, i)).2 = (v, i + 1) ∧ plan.Kept s (i + 1) v := by
  have hbefore : ∀ {now}, (∀ j < i + 1, plan.clock j ≤ now) → Unchanged now s u :=
    fun hnow => h _ fun j hj => hnow j (Nat.lt_succ_of_lt hj)
  rw [Plan.store]
  cases plan.fault i with
  | some e => exact ⟨u, rfl, fun now hnow => hbefore hnow⟩
  | none =>
    exact ⟨_, rfl, fun now hnow => (hbefore hnow).trans
      (unchanged_of_purge (hnow i i.lt_succ_self) (contents_of_isRead _ hread))⟩

/-- What a listing gives is what the machine has of what was there in the beginning. -/
theorem tasksOf_store (hclock : Monotone plan.clock) (h : plan.Kept s i u) (m : String) :
    tasksOf m (plan.store (.list (Keys.tasksDir m) false) (u, i)).1 = plan.listed s i m := by
  rw [Plan.store, listed]
  cases plan.fault i with
  | some e =>
    change (if e.isNotFound then Except.ok none else .error e).map _ =
      if e.isNotFound then Except.ok [] else .error e
    split <;> rfl
  | none =>
    refine (tasksOf_perform u (plan.clock i) m).trans (congrArg Except.ok ?_)
    exact tasksOn_purge_congr (h _ fun j hj => hclock hj.le) m

/-- **One listing.** What was listed before makes no difference to it. -/
theorem run_machineTasks (hclock : Monotone plan.clock) (h : plan.Kept s i u) (m : String) :
    ∃ v, (machineTasks m).run.run plan.store (u, i) = (plan.listed s i m, (v, i + 1)) ∧
      plan.Kept s (i + 1) v := by
  obtain ⟨v, hv, hkept⟩ := h.store (c := .list (Keys.tasksDir m) false) rfl
  refine ⟨v, ?_, hkept⟩
  rw [run_machineTasks_eq, ← tasksOf_store hclock h, ← hv]
  rfl

theorem ok_of_mem_listings (h : ∀ i, plan.fault i = none) {machines : List String}
    {x : String × Except Error (List Task)} (hx : x ∈ plan.listings s i machines) :
    ∃ m bound, x = (m, .ok bound) := by
  induction machines generalizing i with
  | nil => cases hx
  | cons m machines ih =>
    rcases List.mem_cons.mp hx with rfl | hx
    · rw [listed, h i]
      exact ⟨m, _, rfl⟩
    · exact ih hx

end Plan

end ControlPlane
