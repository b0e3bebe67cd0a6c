import ControlPlane.Proofs.Placement
import ControlPlane.Proofs.Registry.Listing
import ControlPlane.Proofs.Registry.Unbinding

/-!
# First fit keeps machines from being overbooked

A machine that is chosen by first fit has room for one more task, and none of the tasks that are
listed there takes a port that the new one takes. Whether this lasts is another question, because
choosing and binding are two things: the listing that was looked at is gone by the time the task is
written, and the writing may fail in the middle.

As long as one client is at work the two fit together. A listing shows exactly the task documents
that are there, so a task occupies its place from the moment its document is written, whether or not
its manifest follows; and a document is written by a creation only, which has just looked. Removals
only make room, and they may take other documents along. Tasks whose ids are not valid are never
listed and occupy nothing. What is shown is therefore an invariant of single changes, `Booked`, and
it holds between any two calls, wherever an operation stops.

A listing that fails stops the creation. It must not fail by claiming that the directory does not
exist, since this is how an empty machine answers; `Store.Serves` rules it out.

## Main definitions

* `Task.Binds`, `Task.Compatible`: the ports of the host that a task takes
* `Cluster.Booked`: the invariant
* `Cluster.Reachable`: what clients leave of an empty store, and what can be seen in between

## Main results

* `Placement.ensures_firstFit?`, `Cluster.ensures_place`: which machine is chosen
* `Cluster.Booked.wrote_task`, `Cluster.Booked.of_fewer`: the changes that keep the invariant
* `Cluster.machineTasks_booked`: no machine has too many tasks, or two that take one port
-/

namespace ControlPlane

open ControlPlane.Path Registry

theorem Registry.answer_machineTasks {s : Store} (h : s.contents.Lasting) (now : Moment)
    (machine : String) :
    answer now (machineTasks machine) s = .ok (tasksOn s.contents machine) := by
  refine answer_eq now ((ensures_machineTasks h trivial machine).mono ?_)
  rintro r _ - ⟨-, hr | ⟨hfailing, -⟩⟩
  · exact hr
  · exact hfailing.elim

/-! ### Ports -/

namespace Task

/-- One of the containers of the task takes the port of the host. Zero stands for no port. -/
def Binds (t : Task) (port : UInt16) : Prop :=
  port ≠ 0 ∧ ∃ c ∈ t.desiredState.manifest.containers, ∃ p ∈ c.ports, p.hostPort = port

/-- No port is taken by both tasks. A task that takes one port twice is not in conflict with itself
here. -/
def Compatible (t t' : Task) : Prop := ∀ port, t.Binds port → ¬ t'.Binds port

variable {t t' : Task}

theorem mem_hostPorts_iff {port : UInt16} : port ∈ t.hostPorts ↔ t.Binds port := by
  rw [hostPorts, List.mem_filter, List.mem_flatMap, bne_iff_ne, and_comm, Binds]
  simp only [List.mem_map]

theorem Compatible.symm (h : t.Compatible t') : t'.Compatible t :=
  fun port h' ht => h port ht h'

end Task

/-! ### Choosing -/

namespace Placement

variable {failing : Prop} {inv : Store → Prop} {s : Store}

/-- **When a machine takes a task:** it has room, and none of its tasks takes a port that is
wanted. -/
theorem fits_iff {capacity : UInt64} {t : Task} {bound : List Task} :
    fits capacity t.hostPorts bound = true ↔
      bound.length < capacity.toNat ∧ ∀ t' ∈ bound, t'.Compatible t := by
  rw [fits, Bool.and_eq_true, decide_eq_true_eq, Bool.not_eq_true', List.any_eq_false]
  refine and_congr_right fun _ => ?_
  simp only [List.mem_flatMap, List.contains_iff_mem, Task.mem_hostPorts_iff]
  constructor
  · exact fun h t' ht' port hport => h port ⟨t', ht', hport⟩
  · rintro h port ⟨t', ht', hport⟩
    exact h t' ht' port hport

/-- **The first machine that fits is found,** whichever calls fail on the way. -/
theorem ensures_firstFit? (h : s.contents.Lasting) (hinv : inv s) (capacity : UInt64)
    (wanted : List UInt16) (machines : List String) :
    (firstFit? capacity wanted machines).run.Ensures (Store.serves failing) inv
      (StoreWork.Saw failing s
        (machines.find? fun m => fits capacity wanted (tasksOn s.contents m))) s := by
  induction machines with
  | nil => exact ⟨hinv, rfl, .inl rfl⟩
  | cons machine machines ih =>
    rw [firstFit?]
    refine StoreWork.ensures_bind_of_saw (ensures_machineTasks h hinv machine) ?_
      fun hfailing e => ⟨rfl, .inr ⟨hfailing, e, rfl⟩⟩
    rw [List.find?_cons]
    cases hfits : fits capacity wanted (tasksOn s.contents machine) with
    | true => exact ⟨hinv, rfl, .inl rfl⟩
    | false => exact ih

end Placement

namespace Cluster

variable {cluster : Cluster} {failing : Prop} {inv : Store → Prop} {s : Store}

/-- The first machine that fits a task. -/
def fitting? (cluster : Cluster) (c : Contents) (t : Task) : Option String :=
  cluster.machines.find? fun m => Placement.fits cluster.capacity t.hostPorts (tasksOn c m)

theorem fitting?_eq_some {c : Contents} {t : Task} {m : String}
    (h : cluster.fitting? c t = some m) :
    m ∈ cluster.machines ∧ Placement.fits cluster.capacity t.hostPorts (tasksOn c m) = true := by
  have hfits := List.find?_some h
  exact ⟨List.mem_of_find?_eq_some h, hfits⟩

/-- **A cluster that places tasks by first fit chooses the first machine that fits.** -/
theorem ensures_place (hpolicy : cluster.policy = .firstFit) (h : s.contents.Lasting) (hinv : inv s)
    (t : Task) :
    (cluster.place t).run.Ensures (serves failing) inv
      (fun r u => u = s ∧
        (r = (cluster.fitting? s.contents t).elim (.error (.noMachine t.id)) .ok ∨
          failing ∧ ∃ e, r = .error e)) s := by
  rw [place, hpolicy, Placement.choose]
  refine Work.Ensures.bind (ensures_ofStore.mpr
    (Placement.ensures_firstFit? h hinv cluster.capacity t.hostPorts cluster.machines)) ?_ ?_
  · rintro found u hu ⟨rfl, hfound | ⟨-, e, he⟩⟩
    · rw [fitting?, ← Except.ok.inj hfound]
      cases found with
      | none => exact ⟨hu, rfl, .inl rfl⟩
      | some machine => exact ⟨hu, rfl, .inl rfl⟩
    · cases he
  · rintro e u - ⟨rfl, he | ⟨hfailing, -⟩⟩
    · cases he
    · exact ⟨rfl, .inr ⟨hfailing, e, rfl⟩⟩

/-! ### The invariant -/

/-- No machine is overbooked: task documents are in order, a listing has no more tasks than a
machine takes, and no port is taken twice. -/
structure Booked (cluster : Cluster) (c : Contents) : Prop where
  filed : Filed cluster.machines c
  room : ∀ m, Flat m → (tasksOn c m).length ≤ cluster.capacity.toNat
  ports : ∀ m, Flat m → ∀ t ∈ tasksOn c m, ∀ t' ∈ tasksOn c m, t.id ≠ t'.id → t.Compatible t'

variable {c d : Contents} {machine m value : String} {t : Task}

theorem booked_empty (cluster : Cluster) : cluster.Booked {} where
  filed := filed_empty cluster.machines
  room _ _ := Nat.zero_le _
  ports _ _ _ ht := by cases ht

/-- A change that adds no task keeps the invariant. -/
theorem Booked.of_fewer (h : cluster.Booked c) (hd : Filed cluster.machines d)
    (hfewer : ∀ m id t, Flat m → taskOn? d m id = some t → taskOn? c m id = some t) :
    cluster.Booked d := by
  have hmem : ∀ m, Flat m → ∀ t ∈ tasksOn d m, t ∈ tasksOn c m := by
    intro m hm t ht
    obtain ⟨t', hid, ht', rfl⟩ := (hd.mem_tasksOn_iff hm).mp ht
    exact (h.filed.mem_tasksOn_iff hm).mpr ⟨t', hid, hfewer m _ t' hm ht', rfl⟩
  refine ⟨hd, fun m hm => ?_, fun m hm t ht t' ht' => ?_⟩
  · have hle := hd.length_tasksOn_le hm [] fun t ht => .inl (hmem m hm t ht)
    exact Nat.le_trans hle (h.room m hm)
  · exact h.ports m hm t (hmem m hm t ht) t' (hmem m hm t' ht')

/-- **A task may be written where it fits.** This is the only way in which a task comes, and the
test that was made before is the one that the invariant asks for. -/
theorem Booked.wrote_task (h : cluster.Booked c) (hd : Filed cluster.machines d)
    (hmachine : Flat machine) (hset : SetsTask machine t.id (some (t.boundTo machine)) c d)
    (hfits : Placement.fits cluster.capacity t.hostPorts (tasksOn c machine) = true) :
    cluster.Booked d := by
  obtain ⟨hroom, hports⟩ := Placement.fits_iff.mp hfits
  -- what is listed was listed before, or is the new task
  have hmem : ∀ m, Flat m → ∀ t' ∈ tasksOn d m, t' ∈ tasksOn c m ∨
      m = machine ∧ t' = (t.boundTo machine).observedOn machine := by
    intro m hm t' ht'
    obtain ⟨t', hid, hthere, rfl⟩ := (hd.mem_tasksOn_iff hm).mp ht'
    rw [hset m t'.id hm] at hthere
    split at hthere
    · rename_i hnew
      obtain rfl := hnew.1
      exact .inr ⟨rfl, by rw [Option.some.inj hthere]⟩
    · exact .inl ((h.filed.mem_tasksOn_iff hm).mpr ⟨t', hid, hthere, rfl⟩)
  refine ⟨hd, fun m hm => ?_, fun m hm t₁ ht₁ t₂ ht₂ hne => ?_⟩
  · by_cases hsame : m = machine
    · subst hsame
      have hnew : ∀ t' ∈ tasksOn d m, t' ∈ tasksOn c m ∨ t'.id ∈ [t.id] := by
        intro t' ht'
        rcases hmem m hm t' ht' with hold | ⟨-, rfl⟩
        · exact .inl hold
        · exact .inr (List.mem_singleton_self _)
      exact Nat.le_trans (hd.length_tasksOn_le hm [t.id] hnew) hroom
    · have hle := hd.length_tasksOn_le hm [] fun t' ht' =>
        .inl ((hmem m hm t' ht').resolve_right fun hnew => hsame hnew.1)
      exact Nat.le_trans hle (h.room m hm)
  · rcases hmem m hm t₁ ht₁ with hold₁ | ⟨rfl, rfl⟩
    · rcases hmem m hm t₂ ht₂ with hold₂ | ⟨rfl, rfl⟩
      · exact h.ports m hm t₁ hold₁ t₂ hold₂ hne
      · exact hports t₁ hold₁
    · rcases hmem m hm t₂ ht₂ with hold₂ | ⟨-, rfl⟩
      · exact (hports t₂ hold₂).symm
      · exact absurd rfl hne

theorem Booked.wrote_manifests (h : cluster.Booked c) (hflat : ∀ m ∈ cluster.machines, Flat m)
    (hmachine : Flat machine) (hw : c.Wrote d (Keys.manifests machine) value) :
    cluster.Booked d := by
  refine h.of_fewer (h.filed.wrote_manifests hflat hmachine hw) fun m id t hm ht => ?_
  rwa [taskOn?_of_wrote_manifests hm hmachine hw] at ht

/-- Whatever is removed, no task is added, so nothing can become too much. -/
theorem Booked.cleared {key : String} {recursive : Bool} (h : cluster.Booked c)
    (hd : c.Cleared d key recursive) : cluster.Booked d := by
  refine h.of_fewer (h.filed.cleared hd) fun m id t hm ht => ?_
  obtain ⟨e, he, hread⟩ := Option.bind_eq_some_iff.mp ht
  rw [hd.kept?] at he
  split at he
  · cases he
  · exact Option.bind_eq_some_iff.mpr ⟨e, he, hread⟩

/-! ### Clients -/

/-- What a client may ask for. -/
inductive Demand where
  | create (t : Task)
  | delete (id : String)

/-- The work that it takes. -/
def Demand.work (cluster : Cluster) : Demand → ClusterWork Unit
  | create t => (fun _ => ()) <$> cluster.createTask t
  | delete id => cluster.deleteTask id

/-- What is left of an empty store by serving one demand after the other, each of them to its end or
up to any of its calls. -/
inductive Reachable (cluster : Cluster) (failing : Prop) : Store → Prop
  | empty : Reachable cluster failing .empty
  | demand {s u : Store} {x : Demand} {rest : Program clusterCalls (Except Error Unit)} :
      Reachable cluster failing s →
      Program.Reaches (serves failing) (x.work cluster).run s rest u →
      Reachable cluster failing u

/-- **One creation keeps the invariant,** wherever it stops: the task is written only where it fits,
and occupies its place from then on. -/
theorem Booked.ensures_createTask (h : cluster.Booked s.contents)
    (hpolicy : cluster.policy = .firstFit) (hflat : ∀ m ∈ cluster.machines, Flat m) (t : Task) :
    (cluster.createTask t).run.Ensures (serves failing) (fun u => cluster.Booked u.contents)
      (fun _ _ => True) s := by
  rw [createTask, createTaskBy]
  refine Work.Ensures.bind (ensures_place hpolicy h.filed.lasting h t) ?_
    fun _ _ _ _ => trivial
  rintro machine u hu ⟨rfl, hchosen | ⟨-, e, he⟩⟩
  · obtain ⟨hmem, hfits⟩ : machine ∈ cluster.machines ∧
        Placement.fits cluster.capacity t.hostPorts (tasksOn u.contents machine) = true := by
      cases hfound : cluster.fitting? u.contents t with
      | none =>
        rw [hfound] at hchosen
        cases hchosen
      | some found =>
        rw [hfound] at hchosen
        obtain rfl := Except.ok.inj hchosen
        exact fitting?_eq_some hfound
    have hmachine := hflat machine hmem
    refine Work.ensures_bind.mpr (ensures_ofStore.mpr ?_)
    refine Registry.ensures_createTask h.filed hflat h (fun _ => trivial) ?_
    intro v list hfree _ hw
    have hfiled : Filed cluster.machines v.contents :=
      h.filed.wrote_task (t := t.boundTo machine) hflat hmachine
        (fun m hm => hfree m (List.mem_cons_of_mem _ hm)) hw
    have hv : cluster.Booked v.contents :=
      h.wrote_task hfiled hmachine (setsTask_of_wrote hmachine hw) hfits
    refine ⟨hv, fun _ _ => trivial, fun x hlist => ?_⟩
    have hx : cluster.Booked x.contents := hv.wrote_manifests hflat hmachine hlist
    exact ⟨hx, hx, trivial⟩
  · cases he

theorem Booked.ensures_deleteTask (h : cluster.Booked s.contents)
    (hflat : ∀ m ∈ cluster.machines, Flat m) (id : String) :
    (cluster.deleteTask id).run.Ensures (serves failing) (fun u => cluster.Booked u.contents)
      (fun _ _ => True) s := by
  refine ensures_ofStore.mpr (ensures_deleteTask_under h.filed hflat h (fun _ _ => trivial)
    (fun _ => trivial) (fun _ _ _ _ _ => trivial) ?_)
  intro machine t u list hlocated _ hw
  have hu := h.wrote_manifests hflat (hflat machine (located?_eq_some hlocated).1) hw
  exact ⟨hu, fun _ _ => trivial, fun v hv => ⟨hu.cleared hv, trivial⟩⟩

theorem Booked.ensures_work (h : cluster.Booked s.contents) (hpolicy : cluster.policy = .firstFit)
    (hflat : ∀ m ∈ cluster.machines, Flat m) (x : Demand) :
    (x.work cluster).run.Ensures (serves failing) (fun u => cluster.Booked u.contents)
      (fun _ _ => True) s := by
  cases x with
  | create t => exact Work.ensures_map.mpr (h.ensures_createTask hpolicy hflat t)
  | delete id => exact h.ensures_deleteTask hflat id

/-- **The invariant holds in every reachable state,** also in those that a failing call has left
half-way. -/
theorem Reachable.booked (hs : cluster.Reachable failing s) (hpolicy : cluster.policy = .firstFit)
    (hflat : ∀ m ∈ cluster.machines, Flat m) : cluster.Booked s.contents := by
  induction hs with
  | empty => exact booked_empty cluster
  | @demand s u x rest _ hrun ih =>
    exact (ih.ensures_work hpolicy hflat x).invariant_of_reaches hrun

/-- **First fit keeps its promise.** However many tasks were created and deleted, with any ids and
whatever has failed on the way, the tasks that are listed on a machine are no more than it takes,
and no two of them take one port of it. -/
theorem machineTasks_booked (hpolicy : cluster.policy = .firstFit)
    (hflat : ∀ m ∈ cluster.machines, Flat m) (hs : cluster.Reachable failing s) (hm : Flat m)
    (now : Moment) :
    ∃ tasks, answer now (machineTasks m) s = .ok tasks ∧
      tasks.length ≤ cluster.capacity.toNat ∧ tasks.Pairwise Task.Compatible := by
  have h := hs.booked hpolicy hflat
  refine ⟨tasksOn s.contents m, answer_machineTasks h.filed.lasting now m, h.room m hm, ?_⟩
  refine (List.pairwise_map.mp (h.filed.nodup_tasksOn hm)).imp_of_mem ?_
  exact fun ht ht' hne => h.ports m hm _ ht _ ht' hne

/-- A partner of work on the cluster with the given store. -/
def serveFrom (store : (c : StoreCall) → Store → Except Error c.Result × Store) (c : ClusterCall)
    (s : Store) : c.Answer × Store :=
  match c with
  | .store c => store c s
  | .turn => ((0 : UInt64), s)
  | .pick bound => ((⟨0, Nat.succ_pos bound⟩ : Fin (bound + 1)), s)

/-- What is left of a demand. -/
def left (cluster : Cluster) (store : (c : StoreCall) → Store → Except Error c.Result × Store)
    (x : Demand) (s : Store) : Store :=
  ((x.work cluster).run.run (serveFrom store) s).2

theorem Reachable.left {store : (c : StoreCall) → Store → Except Error c.Result × Store}
    (hs : cluster.Reachable failing s)
    (hstore : ∀ c s, Store.serves failing c s (store c s).1 (store c s).2) (x : Demand) :
    cluster.Reachable failing (cluster.left store x s) := by
  refine .demand hs (.of_run (fun c s => ?_) _ _)
  cases c with
  | store c => exact hstore c s
  | turn => rfl
  | pick bound => rfl

/-- One machine that takes one task. -/
def small : Cluster := { machines := ["h1"], policy := .firstFit, capacity := 1 }

/-- What a creation leaves of an empty store if no manifest list can be written. -/
def halfPlaced : Store := small.left Store.failingSet (.create { id := "web" }) .empty

theorem reachable_halfPlaced : small.Reachable True halfPlaced := by
  refine Reachable.left .empty (fun c s => ?_) _
  cases c with
  | set key value ttl => exact .failed trivial _ nofun
  | _ => exact .performed 0

/-- The task has no manifest, but it occupies the machine. -/
theorem machineTasks_booked_halfPlaced :
    halfPlaced.contents.kept? (Keys.manifests "h1") = none ∧
      ∃ t, answer 0 (machineTasks "h1") halfPlaced = .ok [t] ∧ t.id = "web" := by
  have hflat : ∀ m ∈ small.machines, Flat m := by decide
  have hh1 : Flat "h1" := hflat "h1" (List.mem_singleton_self _)
  obtain ⟨tasks, hanswer, hroom, -⟩ := machineTasks_booked rfl hflat reachable_halfPlaced hh1 0
  refine ⟨by decide +kernel, ?_⟩
  -- the document is listed, and nothing else is, since there is room for one task only
  have hfiled := (reachable_halfPlaced.booked rfl hflat).filed
  obtain ⟨t, ht, hid⟩ : ∃ t, taskOn? halfPlaced.contents "h1" "web" = some t ∧ t.id = "web" :=
    hfiled.exists_taskOn hh1 (by decide +kernel)
  have hlisted : t.observedOn "h1" ∈ tasks := by
    rw [answer_machineTasks hfiled.lasting] at hanswer
    rw [← Except.ok.inj hanswer]
    refine (hfiled.mem_tasksOn_iff hh1).mpr ⟨t, ?_, ?_, rfl⟩
    · rw [hid]
      exact ⟨by decide, by decide⟩
    · rw [hid]
      exact ht
  cases tasks with
  | nil => cases hlisted
  | cons x rest =>
    have hrest : rest.length ≤ 0 := Nat.le_of_succ_le_succ hroom
    obtain rfl := List.length_eq_zero_iff.mp (Nat.le_zero.mp hrest)
    obtain rfl := List.mem_singleton.mp hlisted
    exact ⟨_, hanswer, hid⟩

end Cluster

end ControlPlane
