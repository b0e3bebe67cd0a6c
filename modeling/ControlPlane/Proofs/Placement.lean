import ControlPlane.Cluster
import ControlPlane.Proofs.Registry.Keys
import ControlPlane.Proofs.Store.Lasting

/-!
# Choosing a machine

A scheduler is any work on the cluster that ends with the name of a machine. What the rest of the
control plane relies on is little: it looks and does not touch, and the name is one part of a path.
Where tasks shall be found again, it is one of the machines that are looked through. The policies of
a cluster do both.

## Main definitions

* `Scheduler.Picks`, `Scheduler.PicksFrom`
* `Cluster.serves`: the answers to work on the cluster, on a store that may fail

## Main results

* `Cluster.picksFrom_place`, `Cluster.picks_place`
* `Scheduler.Picks.ensures`, `Scheduler.PicksFrom.ensures`: choosing leaves the store alone
-/

namespace ControlPlane

open ControlPlane.Path Store

/-- Whether a call on the cluster leaves the store alone. -/
def ClusterCall.isRead : ClusterCall → Bool
  | .store c => c.isRead
  | .turn | .pick _ => true

/-- The scheduler looks and does not touch, and names machines that are one part of a path. -/
def Scheduler.Picks (schedule : Scheduler) : Prop :=
  ∀ t, (schedule t).run.Asks (fun c : ClusterCall => c.isRead = true)
    fun r => ∀ m, r = .ok m → Flat m

/-- The scheduler looks and does not touch, and names one of the machines. -/
def Scheduler.PicksFrom (schedule : Scheduler) (machines : List String) : Prop :=
  ∀ t, (schedule t).run.Asks (fun c : ClusterCall => c.isRead = true)
    fun r => ∀ m, r = .ok m → m ∈ machines

theorem Scheduler.PicksFrom.picks {schedule : Scheduler} {machines : List String}
    (h : schedule.PicksFrom machines) (hflat : ∀ m ∈ machines, Flat m) : schedule.Picks :=
  fun t => (h t).mono fun _ hr m hm => hflat m (hr m hm)

namespace Cluster

/-- The answers to calls on the cluster, on a store that may fail: a turn and a random number may be
anything. -/
def serves (failing : Prop) : clusterCalls.Steps Store
  | .store c, s, a, t => Serves failing c s a t
  | .turn, s, _, t => t = s
  | .pick _, s, _, t => t = s

/-- Work that only uses the store is the same on the cluster. -/
theorem ensures_ofStore {α : Type} {failing : Prop} {inv : Store → Prop} {s : Store}
    {post : Except Error α → Store → Prop} {w : StoreWork α} :
    (ClusterWork.ofStore w).run.Ensures (serves failing) inv post s ↔
      w.run.Ensures (Store.serves failing) inv post s :=
  Program.ensures_expand fun _ _ _ _ => Program.ensures_ask

end Cluster

/-- Work on the cluster that does not touch the store. -/
theorem Cluster.ensures_of_asks {α : Type} {w : ClusterWork α} {post : Except Error α → Prop}
    (h : w.run.Asks (fun c : ClusterCall => c.isRead = true) post) {failing : Prop}
    {inv : Store → Prop} {s : Store} (hlasting : s.contents.Lasting) (hinv : inv s) :
    w.run.Ensures (Cluster.serves failing) inv (fun r u => u = s ∧ post r) s := by
  refine h.ensures hinv fun c a u hread hstep => ?_
  cases c with
  | store c => exact Serves.eq_of_isRead hstep hlasting hread
  | turn => exact hstep
  | pick bound => exact hstep

/-- **Choosing leaves the store alone.** A policy may look at tasks and at its own counter, and
either may fail, but it writes nothing. -/
theorem Scheduler.Picks.ensures {schedule : Scheduler} (h : schedule.Picks) {failing : Prop}
    {inv : Store → Prop} {s : Store} (hlasting : s.contents.Lasting) (hinv : inv s) (t : Task) :
    (schedule t).run.Ensures (Cluster.serves failing) inv
      (fun r u => u = s ∧ ∀ m, r = .ok m → Flat m) s :=
  Cluster.ensures_of_asks (h t) hlasting hinv

theorem Scheduler.PicksFrom.ensures {schedule : Scheduler} {machines : List String}
    (h : schedule.PicksFrom machines) {failing : Prop} {inv : Store → Prop} {s : Store}
    (hlasting : s.contents.Lasting) (hinv : inv s) (t : Task) :
    (schedule t).run.Ensures (Cluster.serves failing) inv
      (fun r u => u = s ∧ ∀ m, r = .ok m → m ∈ machines) s :=
  Cluster.ensures_of_asks (h t) hlasting hinv

/-! ### The policies -/

namespace Placement

theorem asks_machineTasks (machine : String) :
    (Registry.machineTasks machine).run.Asks (fun c : StoreCall => c.isRead = true)
      fun _ => True := by
  refine Work.asks_bind.mpr (Work.asks_bind.mpr ?_)
  refine Work.asks_orNone.mpr (Program.asks_ask.mpr ⟨rfl, fun r => ?_⟩)
  generalize Work.noneIfAbsent r = found
  cases found <;> trivial

/-- The machine that fits first is one of the machines. -/
theorem asks_firstFit? (capacity : UInt64) (wanted : List UInt16) (machines : List String) :
    (firstFit? capacity wanted machines).run.Asks (fun c : StoreCall => c.isRead = true)
      fun r => ∀ m, r = .ok (some m) → m ∈ machines := by
  induction machines with
  | nil => exact fun m h => by cases h
  | cons machine machines ih =>
    rw [firstFit?]
    refine Work.asks_bind.mpr ((asks_machineTasks machine).mono fun r _ => ?_)
    cases r with
    | error e => exact fun m h => by cases h
    | ok bound =>
      dsimp only
      split
      · exact fun m h => by cases h; exact List.mem_cons_self ..
      · exact ih.mono fun r hr m hm => List.mem_cons_of_mem machine (hr m hm)

end Placement

/-- **The policies of a cluster choose among its machines.** -/
theorem Cluster.picksFrom_place (c : Cluster) : Scheduler.PicksFrom c.place c.machines := by
  intro t
  rw [Cluster.place]
  generalize c.machines = machines
  cases c.policy with
  | firstFit =>
    rw [Placement.choose]
    refine Work.asks_bind.mpr (Program.asks_expand (fun c post hc h => ⟨hc, h⟩)
      ((Placement.asks_firstFit? c.capacity t.hostPorts machines).mono fun r hr => ?_))
    cases r with
    | error e => exact fun m h => by cases h
    | ok found =>
      cases found with
      | none => exact fun m h => by cases h
      | some machine =>
        intro m h
        cases h
        exact hr _ rfl
  | roundRobin =>
    cases machines with
    | nil => exact fun m h => by cases h
    | cons first others =>
      refine ⟨rfl, fun turn m h => ?_⟩
      cases h
      exact List.get_mem ..
  | random =>
    cases machines with
    | nil => exact fun m h => by cases h
    | cons first others =>
      refine ⟨rfl, fun picked m h => ?_⟩
      cases h
      exact List.get_mem ..

/-- They are schedulers, if the names of the machines are parts of a path. -/
theorem Cluster.picks_place (c : Cluster) (hflat : ∀ m ∈ c.machines, Flat m) :
    Scheduler.Picks c.place :=
  c.picksFrom_place.picks hflat

end ControlPlane
