import ControlPlane.Proofs.Registry.Controllers
import ControlPlane.Proofs.Replication.Pass

/-!
# What creations and deletions leave

A pass does not learn what becomes of the replicas that it creates, and a failure may stop a
creation or a deletion anywhere. Where it comes to its end, however, a creation has brought exactly
one task, under an id that was nowhere, and a deletion has taken exactly one, while controllers stay
as they are. For every selector this settles which ids count afterwards.

## Main definitions

* `creation`: the creation of a replica, with what becomes of it
* `carriesOut`, `succeeds`: the calls of a pass, carried out by the control of replicas, and those
  where no creation or deletion fails
* `Created`, `Removed`: one task more, one task less

## Main results

* `ensures_creation_of_binding`: a creation comes down to a binding
* `ensures_creation`, `ensures_removal`
* `Created.active_iff`, `Removed.active_iff`: which ids count then
* `Created.length_active`: and how many
-/

namespace ControlPlane.Replication

open Contents ControlPlane.Path Keys Program Registry Store StoreWork

/-! ### Calls -/

/-- The creation of a replica, with what becomes of it. -/
def creation (cluster : Cluster) (schedule : Scheduler) (x : Controller) :
    Work controlCalls Task := do
  let id : String ← ExceptT.lift (ask (I := controlCalls) .freshId)
  onCluster (cluster.createTaskBy schedule (x.replica id))

/-- A pass does not learn what becomes of it. -/
theorem controlBy_create (cluster : Cluster) (schedule : Scheduler) (x : Controller) :
    controlBy cluster schedule (.create x) =
      (creation cluster schedule x).run.bind fun _ => .done () := rfl

/-- The calls of a pass, each carried out to its end. -/
def carriesOut (failing : Prop) (cluster : Cluster) (schedule : Scheduler) :
    replicaCalls.Steps Store :=
  fun c s a t => Reaches (serves failing) (controlBy cluster schedule c) s (.done a) t

/-- The calls of a pass where neither the store nor a creation or deletion fails. All of them are
carried out by the control of replicas. A deletion tells that it has not failed, but a creation
gives nothing back, so what became of it has to be said beside. -/
def succeeds (cluster : Cluster) (schedule : Scheduler) : replicaCalls.Steps Store
  | .create x, s, a, t => carriesOut False cluster schedule (.create x) s a t ∧
    ∃ task, Reaches (serves False) (creation cluster schedule x).run s (.done (.ok task)) t
  | .delete id, s, a, t => a = .ok () ∧ carriesOut False cluster schedule (.delete id) s a t
  | .list selector, s, a, t => carriesOut False cluster schedule (.list selector) s a t
  | .pause, s, a, t => carriesOut False cluster schedule .pause s a t

/-- **A creation that does not fail is all that the control of replicas does.** -/
theorem succeeds_create {cluster : Cluster} {schedule : Scheduler} {x : Controller} {s t : Store}
    {task : Task}
    (run : Reaches (serves False) (creation cluster schedule x).run s (.done (.ok task)) t) :
    succeeds cluster schedule (.create x) s () t := by
  refine ⟨?_, task, run⟩
  unfold carriesOut
  rw [controlBy_create]
  exact run.bind

/-! ### One task more, one task less -/

/-- A replica of a controller has come, under an id that no machine had. -/
def Created (machines : List String) (x : Controller) (id : String) (c d : Contents) : Prop :=
  (∀ m ∈ machines, taskOn? c m id = none) ∧
    ∃ machine ∈ machines, SetsTask machine id (some ((x.replica id).boundTo machine)) c d

/-- The task of an id has gone from its machine. -/
def Removed (machines : List String) (id : String) (c d : Contents) : Prop :=
  ∃ machine ∈ machines, (taskOn? c machine id).isSome = true ∧ SetsTask machine id none c d

variable {machines : List String} {x : Controller} {machine m id : String} {c d : Contents}
  {selector : Labels} {failing : Prop} {cluster : Cluster} {schedule : Scheduler} {s : Store}

/-- The rule for creations: under some id that names one document, the replica is bound to some
machine of the cluster, unless there is an error before that. -/
theorem ensures_creation_of_binding {inv : Store → Prop} {post : Except Error Task → Store → Prop}
    (hschedule : schedule.PicksFrom cluster.machines) (hlasting : s.contents.Lasting) (hinv : inv s)
    (hfail : ∀ e, post (.error e) s)
    (hbinding : ∀ id, ValidId id → ∀ machine ∈ cluster.machines,
      (createTask cluster.machines machine (x.replica id)).run.Ensures (Store.serves failing) inv
        (fun r u => post (r.map fun _ => (x.replica id).boundTo machine) u) s) :
    (creation cluster schedule x).run.Ensures (serves failing) inv post s := by
  refine Work.ensures_bind.mpr (Work.ensures_lift.mpr
    ((ensures_ask (I := controlCalls) (c := .freshId)).mpr ⟨hinv, ?_⟩))
  rintro id u ⟨hid, hu⟩
  rw [hu]
  refine ⟨hinv, ensures_onCluster.mpr (Work.Ensures.bind (hschedule.ensures hlasting hinv _) ?_ ?_)⟩
  · rintro machine u - ⟨hu, hmem⟩
    rw [hu]
    refine Work.ensures_bind.mpr (Cluster.ensures_ofStore.mpr
      ((hbinding id hid machine (hmem machine rfl)).mono fun r u hu hpost => ?_))
    cases r with
    | ok _ => exact ⟨hu, hpost⟩
    | error e => exact hpost
  · rintro e u - ⟨hu, -⟩
    rw [hu]
    exact hfail e

/-- **A creation that does not fail adds one replica.** -/
theorem ensures_creation (hschedule : schedule.PicksFrom cluster.machines)
    (hflat : ∀ m ∈ cluster.machines, Flat m) (h : Governed cluster.machines s.contents)
    (x : Controller) :
    (creation cluster schedule x).run.Ensures (serves failing)
      (fun u => Governed cluster.machines u.contents)
      (fun r u => ∀ task, r = .ok task →
        (∃ id, Created cluster.machines x id s.contents u.contents) ∧
          SameControllers s.contents u.contents) s := by
  refine ensures_creation_of_binding hschedule h.documented.lasting h
    (fun _ _ htask => nomatch htask) fun id hid machine hmachine => ?_
  refine (h.ensures_createTask (t := x.replica id) hflat (hflat machine hmachine) hid).mono ?_
  rintro (e | ⟨⟩) u - hbound task htask
  · cases htask
  · obtain ⟨hfree, hset, hsame⟩ := hbound rfl
    exact ⟨⟨id, hfree, machine, hmachine, hset⟩, hsame⟩

/-- **A deletion that does not fail removes one task.** -/
theorem ensures_removal (hflat : ∀ m ∈ cluster.machines, Flat m)
    (h : Governed cluster.machines s.contents) (id : String) :
    (controlBy cluster schedule (.delete id)).Ensures (serves failing)
      (fun u => Governed cluster.machines u.contents)
      (fun r u => r = .ok () → Removed cluster.machines id s.contents u.contents ∧
        SameControllers s.contents u.contents) s :=
  ensures_onCluster.mpr (Cluster.ensures_ofStore.mpr (h.ensures_deleteTask hflat id))

/-- A listing that does not fail gives what the documents say. -/
theorem ensures_listing (h : s.contents.Lasting) (selector : Labels) :
    (controlBy cluster schedule (.list selector)).Ensures (serves failing) (fun _ => True)
      (Saw failing s (selectedOn s.contents cluster.machines selector)) s :=
  ensures_onCluster.mpr (Cluster.ensures_ofStore.mpr
    (ensures_tasks h trivial cluster.machines selector))

theorem ensures_pause :
    (controlBy cluster schedule .pause).Ensures (serves failing) (fun _ => True)
      (fun _ u => u = s) s :=
  (ensures_ask (I := controlCalls) (c := .pause)).mpr ⟨trivial, fun _ _ hu => ⟨trivial, hu⟩⟩

/-! ### Who counts then -/

/-- A replica has not ended when it comes: its observed state is empty, and an empty status says
nothing. -/
theorem not_hasEnded_replica (x : Controller) (id machine : String) :
    ¬ ((x.replica id).boundTo machine).HasEnded := by
  change ¬ "Exit".toList <:+: "".toList
  decide

/-- A new replica counts where its labels are selected. -/
theorem Created.active_iff (h : Created machines x id c d) (hflat : ∀ m ∈ machines, Flat m)
    (id' : String) :
    Active d machines selector id' ↔
      (id' = id ∧ selector.Within x.replicaLabels) ∨
        (id' ≠ id ∧ Active c machines selector id') := by
  obtain ⟨hfree, machine, hmachine, hset⟩ := h
  rw [hset.active_iff hmachine hflat fun m hm _ => hfree m hm]
  refine or_congr_left (and_congr_right fun _ => ⟨?_, fun hselected => ?_⟩)
  · rintro ⟨t, ht, hselected, -⟩
    obtain rfl := Option.some.inj ht
    exact hselected
  · exact ⟨_, rfl, hselected, not_hasEnded_replica x id machine⟩

/-- **A new replica is one task more** where its labels are selected, and none elsewhere. -/
theorem Created.length_active (h : Created machines x id c d) (hc : Filed machines c)
    (hd : Filed machines d) (hflat : ∀ m ∈ machines, Flat m) (hmachines : machines.Nodup)
    (hid : ValidId id) (selector : Labels) :
    (active d machines selector).length = (active c machines selector).length +
      if selector.Within x.replicaLabels then 1 else 0 := by
  have hnew : ¬ Active c machines selector id := by
    rintro ⟨m, hm, t, ht, -⟩
    rw [h.1 m hm] at ht
    cases ht
  by_cases hselected : selector.Within x.replicaLabels
  · rw [if_pos hselected]
    refine hc.length_active_succ hd hflat hmachines hid hnew fun id' _ => ?_
    rw [h.active_iff hflat, and_iff_left hselected]
    by_cases heq : id' = id <;> simp [heq]
  · rw [if_neg hselected]
    refine hd.length_active_congr hc hflat hmachines fun id' _ => ?_
    rw [h.active_iff hflat]
    by_cases heq : id' = id <;> simp [heq, hselected, hnew]

/-- A task that goes counts no longer, and no other is affected. -/
theorem Removed.active_iff (h : Removed machines id c d) (hc : Documented machines c)
    (hflat : ∀ m ∈ machines, Flat m) (id' : String) :
    Active d machines selector id' ↔ id' ≠ id ∧ Active c machines selector id' := by
  obtain ⟨machine, hmachine, hentry, hset⟩ := h
  obtain ⟨t₀, ht₀⟩ := Option.isSome_iff_exists.mp hentry
  have halone : ∀ m ∈ machines, m ≠ machine → taskOn? c m id = none := by
    intro m hm hne
    refine Option.eq_none_iff_forall_ne_some.mpr fun t ht => hne ?_
    exact hc.alone id m hm machine hmachine (isSome_kept?_of_taskOn? ht)
      (isSome_kept?_of_taskOn? ht₀)
  rw [hset.active_iff hmachine hflat halone]
  simp

end ControlPlane.Replication
