import ControlPlane.Proofs.Placement
import ControlPlane.Proofs.Registry.Listing
import ControlPlane.Proofs.Registry.Session
import ControlPlane.Proofs.Replication.Calls
import ControlPlane.Replication.Control
import Mathlib.Tactic.Set

/-!
# A pass never overshoots

A replication pass counts once and then acts by operations of several calls each, any of which may
fail and leave a task without its manifest. None of this lets the number of live tasks leave the
range between where it was and where it shall be, not even in the middle of an operation.

The reason is that each operation changes one task document at most, in one direction. While
replicas are created, no document goes, and each creation adds one document at most, so the number
of creations bounds how far the number can rise. While tasks are deleted, no document comes, and
only documents go whose ids are on the list of the surplus, so its length bounds how far the number
can fall. How the scheduler chooses plays no part in this.

## Main definitions

* `Replication.serves`: the answers to the calls of a pass
* `Replication.Approaches`: what a pass may do to the tasks

## Main results

* `Replication.pass_approaches`
-/

namespace ControlPlane

open Contents ControlPlane.Path Keys Store Registry

/-! ### Ids of tasks -/

theorem hexFrom_of_forall {p : Char → Prop} (hp : ∀ d < 16, p (hexDigit d)) (room n : Nat)
    {digits : List Char} (h : ∀ c ∈ digits, p c) : ∀ c ∈ hexFrom digits room n, p c := by
  induction room generalizing digits n with
  | zero => exact h
  | succ room ih =>
    rw [hexFrom]
    split
    · rename_i hn
      exact List.forall_mem_cons.mpr ⟨hp n hn, h⟩
    · exact ih _ (List.forall_mem_cons.mpr ⟨hp _ (Nat.mod_lt n (by decide)), h⟩)

theorem hexFrom_ne_nil (room n : Nat) {digits : List Char} (h : digits ≠ []) :
    hexFrom digits room n ≠ [] := by
  induction room generalizing digits n with
  | zero => exact h
  | succ room ih =>
    rw [hexFrom]
    split
    · exact List.cons_ne_nil _ _
    · exact ih _ (List.cons_ne_nil _ _)

/-- The id that a random number gives to a task names one document. -/
theorem validId_taskIdOf (number : UInt64) : ValidId (taskIdOf number) where
  nonempty := by
    rw [taskIdOf, hexText, hexFrom, ne_eq, ← String.toList_inj, String.toList_ofList]
    split
    · exact List.cons_ne_nil _ _
    · exact hexFrom_ne_nil _ _ (List.cons_ne_nil _ _)
  flat := by
    rw [Flat, taskIdOf, String.toList_ofList]
    exact hexFrom_of_forall (p := fun c => c ≠ '/') (by decide) 16 _ fun c hc => by cases hc

namespace Replication

/-- The answers to the calls of a pass, on a store that may fail: a new id may be any id that names
one document. -/
def serves (failing : Prop) : controlCalls.Steps Store
  | .cluster c, s, a, t => Cluster.serves failing c s a t
  | .freshId, s, id, t => ValidId id ∧ t = s
  | .pause, s, _, t => t = s

/-- How far a pass may go: the number of live tasks that are selected stays between what it was and
what is wanted; with too few no task goes, with too many none comes; and no task ever goes that has
ended or is not selected. -/
structure Approaches (machines : List String) (selector : Labels) (wanted : Nat) (c d : Contents) :
    Prop where
  atLeast : min (active c machines selector).length wanted ≤ (active d machines selector).length
  atMost : (active d machines selector).length ≤ max (active c machines selector).length wanted
  keeps : (active c machines selector).length ≤ wanted →
    ∀ m id t, Flat m → taskOn? c m id = some t → taskOn? d m id = some t
  adds : wanted ≤ (active c machines selector).length →
    ∀ m id t, Flat m → taskOn? d m id = some t → taskOn? c m id = some t
  spares : ∀ m id t, Flat m → taskOn? c m id = some t →
    (t.HasEnded ∨ ¬ selector.Within t.labels) → taskOn? d m id = some t

/-! ### The tasks on a store -/

/-- Every task of `c` is a task of `d`. -/
def Within (c d : Contents) : Prop :=
  ∀ m id t, Flat m → taskOn? c m id = some t → taskOn? d m id = some t

variable {machines : List String} {machine id value : String} {c d : Contents} {selector : Labels}

theorem Within.refl (c : Contents) : Within c c := fun _ _ _ _ h => h

theorem Within.trans {e : Contents} (h : Within c d) (h' : Within d e) : Within c e :=
  fun m id t hm ht => h' m id t hm (h m id t hm ht)

theorem Within.active (h : Within c d) (hflat : ∀ m ∈ machines, Flat m)
    (hactive : Active c machines selector id) : Active d machines selector id := by
  obtain ⟨m, hm, t, ht, hselected⟩ := hactive
  exact ⟨m, hm, t, h m id t (hflat m hm) ht, hselected⟩

theorem within_of_wrote_manifests (hmachine : Flat machine)
    (hw : c.Wrote d (Keys.manifests machine) value) : Within c d ∧ Within d c := by
  refine ⟨fun m id t hm ht => ?_, fun m id t hm ht => ?_⟩
  · rwa [taskOn?_of_wrote_manifests hm hmachine hw]
  · rwa [taskOn?_of_wrote_manifests hm hmachine hw] at ht

/-- A task that is written anew adds one id at most. -/
theorem within_of_wrote_task (hmachine : Flat machine)
    (hfree : c.kept? (Keys.task machine id) = none) (hw : c.Wrote d (Keys.task machine id) value) :
    Within c d := by
  intro m id' t hm ht
  rw [taskOn?, hw.frame]
  · exact ht
  · intro heq
    obtain ⟨rfl, rfl⟩ := (task_inj hm hmachine).mp heq
    rw [taskOn?, hfree] at ht
    cases ht

theorem active_of_wrote_task {id' : String} (hflat : ∀ m ∈ machines, Flat m)
    (hmachine : Flat machine)
    (hw : c.Wrote d (Keys.task machine id) value) (h : Active d machines selector id') :
    Active c machines selector id' ∨ id' ∈ [id] := by
  obtain ⟨m, hm, t, ht, hselected⟩ := h
  by_cases heq : id' = id
  · exact .inr (heq ▸ List.mem_cons_self ..)
  · rw [taskOn?, hw.frame _ fun hkey => heq ((task_inj (hflat m hm) hmachine).mp hkey).2] at ht
    exact .inl ⟨m, hm, t, ht, hselected⟩

theorem within_of_dropped (hd : c.Dropped d (Keys.task machine id)) : Within d c := by
  intro m id' t _ ht
  rw [taskOn?, hd.kept?] at ht
  split at ht
  · cases ht
  · exact ht

/-! ### Creating replicas -/

variable {failing : Prop} {cluster : Cluster} {schedule : Scheduler} {b : Contents} {bound : Nat}
  {s : Store}

theorem ensures_onCluster {α : Type} {inv : Store → Prop} {post : Except Error α → Store → Prop}
    {w : ClusterWork α} :
    (onCluster w).run.Ensures (serves failing) inv post s ↔
      w.run.Ensures (Cluster.serves failing) inv post s :=
  Program.ensures_expand fun _ _ _ _ => Program.ensures_ask

/-- While replicas are created, the tasks of `b` stay, and there are at most `bound` live ones. -/
structure Rising (machines : List String) (selector : Labels) (b : Contents) (bound : Nat)
    (u : Store) :
    Prop where
  documented : Documented machines u.contents
  within : Within b u.contents
  atMost : (active u.contents machines selector).length ≤ bound

/-- **A creation adds one task at most,** wherever it fails. -/
theorem ensures_create (hschedule : schedule.Picks) (hflat : ∀ m ∈ cluster.machines, Flat m)
    (hmachines : cluster.machines.Nodup) (h : Rising cluster.machines selector b bound s)
    (hroom : (active s.contents cluster.machines selector).length + 1 ≤ bound)
    (controller : Controller) :
    (controlBy cluster schedule (.create controller)).Ensures (serves failing)
      (Rising cluster.machines selector b bound)
      (fun _ u => (active u.contents cluster.machines selector).length ≤
        (active s.contents cluster.machines selector).length + 1) s := by
  -- what is shown of every step: it adds one task at most to those that were there before
  have hstep : ∀ {u : Store}, Documented cluster.machines u.contents →
      Within s.contents u.contents →
      (active u.contents cluster.machines selector).length ≤
        (active s.contents cluster.machines selector).length + 1 →
      Rising cluster.machines selector b bound u :=
    fun hu hwithin hcount => ⟨hu, h.within.trans hwithin, Nat.le_trans hcount hroom⟩
  refine Program.Ensures.bind (m := fun id u => u = s ∧ ValidId id)
    (Program.ensures_ask.mpr ⟨h, ?_⟩) ?_
  · rintro id u ⟨hid, rfl⟩
    exact ⟨h, rfl, hid⟩
  rintro id u - ⟨hu, hid⟩
  rw [hu]
  refine Program.Ensures.bind (m := fun _ u =>
    (active u.contents cluster.machines selector).length ≤
      (active s.contents cluster.machines selector).length + 1) (ensures_onCluster.mpr ?_)
    fun _ u hu hcount => ⟨hu, hcount⟩
  refine Work.Ensures.bind (hschedule.ensures h.documented.lasting h _) ?_ ?_
  · rintro machine u - ⟨hu, hname⟩
    rw [hu]
    have hmachine := hname machine rfl
    refine Work.ensures_bind.mpr (Cluster.ensures_ofStore.mpr
      (ensures_createTask h.documented.filed hflat h (fun _ => Nat.le_succ _) ?_))
    intro u list hfree _ hw
    have hmissing := hfree machine (List.mem_cons_self ..)
    have hdocumented : Documented cluster.machines u.contents :=
      h.documented.wrote_task (t := (controller.replica id).boundTo machine) hflat hmachine hid
        (fun m hm => hfree m (List.mem_cons_of_mem _ hm)) hw
    have hwithin : Within s.contents u.contents := within_of_wrote_task hmachine hmissing hw
    have hcount := hdocumented.filed.length_active_le h.documented.filed hflat hmachines selector
      [id] fun id' _ => active_of_wrote_task hflat hmachine hw
    refine ⟨hstep hdocumented hwithin hcount, fun _ _ => hcount, fun v hv => ?_⟩
    obtain ⟨hforth, hback⟩ := within_of_wrote_manifests hmachine hv
    have hdocumented' : Documented cluster.machines v.contents :=
      hdocumented.wrote_manifests hflat hmachine hv
    have hcount' := hdocumented'.filed.length_active_le hdocumented.filed hflat hmachines selector
      [] fun id' _ hactive => .inl (hback.active hflat hactive)
    have hv' := hstep hdocumented' (hwithin.trans hforth) (Nat.le_trans hcount' hcount)
    exact ⟨hv', hv', Nat.le_trans hcount' hcount⟩
  · rintro e u - ⟨hu, -⟩
    rw [hu]
    exact Nat.le_succ _

/-- **Creating replicas** one after the other, none of which takes the number above what is wanted.
-/
theorem ensures_createMissing (hschedule : schedule.Picks) (hflat : ∀ m ∈ cluster.machines, Flat m)
    (hmachines : cluster.machines.Nodup) (controller : Controller) (missing : Nat)
    (h : Rising cluster.machines selector b bound s)
    (hroom : (active s.contents cluster.machines selector).length + missing ≤ bound) :
    ((createMissing controller missing).expand (controlBy cluster schedule)).Ensures
      (serves failing)
      (Rising cluster.machines selector b bound) (fun _ _ => True) s := by
  induction missing using Nat.strongRecOn generalizing s with
  | ind missing ih =>
    match missing with
    | 0 => exact ⟨h, trivial⟩
    | 1 =>
      rw [createMissing]
      refine (Program.ensures_expand_ask (I := replicaCalls) (c := .create controller)).mpr ?_
      exact (ensures_create hschedule hflat hmachines h hroom controller).mono
        fun _ _ _ _ => trivial
    | missing + 2 =>
      rw [createMissing]
      refine Program.ensures_expand_bind.mpr
        ((Program.ensures_expand_ask (I := replicaCalls) (c := .create controller)).mpr ?_)
      refine (ensures_create hschedule hflat hmachines h (by omega) controller).mono ?_
      rintro _ u hu hcount
      refine Program.ensures_expand_bind.mpr
        ((Program.ensures_expand_ask (I := replicaCalls) (c := .pause)).mpr ?_)
      refine Program.ensures_ask.mpr ⟨hu, ?_⟩
      rintro _ v hv
      obtain rfl : v = u := hv
      exact ⟨hu, ih (missing + 1) (by omega) hu (by omega)⟩

/-! ### Deleting the surplus -/

/-- While tasks are deleted, none comes, and only tasks go that are on a machine and on the list. -/
structure Falling (machines : List String) (b : Contents) (ids : List String) (u : Store) :
    Prop where
  documented : Documented machines u.contents
  within : Within u.contents b
  gone : ∀ m id t, Flat m → taskOn? b m id = some t →
    taskOn? u.contents m id = some t ∨ m ∈ machines ∧ id ∈ ids

variable {ids : List String}

/-- **A deletion takes one task at most,** wherever it fails. -/
theorem ensures_delete (hflat : ∀ m ∈ cluster.machines, Flat m)
    (h : Falling cluster.machines b ids s) (hid : id ∈ ids) :
    (controlBy cluster schedule (.delete id)).Ensures (serves failing)
      (Falling cluster.machines b ids) (fun _ _ => True) s := by
  refine ensures_onCluster.mpr (Cluster.ensures_ofStore.mpr ?_)
  refine ensures_deleteTask h.documented hflat h (fun _ => trivial) ?_
  intro machine hmachine u list _ _ hw
  have hname := hflat machine hmachine
  obtain ⟨hforth, hback⟩ := within_of_wrote_manifests hname hw
  have hu : Falling cluster.machines b ids u :=
    { documented := h.documented.wrote_manifests hflat hname hw
      within := hback.trans h.within
      gone := fun m id t hm ht => (h.gone m id t hm ht).imp_left (hforth m id t hm) }
  refine ⟨hu, fun _ _ => trivial, fun v hv => ⟨?_, trivial⟩⟩
  refine ⟨hu.documented.dropped_task hv, (within_of_dropped hv).trans hu.within, ?_⟩
  intro m id' t hm ht
  by_cases hkey : Keys.task m id' = Keys.task machine id
  · obtain ⟨rfl, rfl⟩ := (task_inj hm hname).mp hkey
    exact .inr ⟨hmachine, hid⟩
  · rw [taskOn?, hv.frame _ hkey]
    exact hu.gone m id' t hm ht

/-- **Deleting tasks** one after the other, up to the first that cannot be deleted. -/
theorem ensures_deleteSurplus (hflat : ∀ m ∈ cluster.machines, Flat m) (surplus : List Task)
    (h : Falling cluster.machines b ids s) (hsurplus : ∀ t ∈ surplus, t.id ∈ ids) :
    ((deleteSurplus surplus).through (controlBy cluster schedule)).run.Ensures (serves failing)
      (Falling cluster.machines b ids) (fun _ _ => True) s := by
  induction surplus generalizing s with
  | nil => exact ⟨h, trivial⟩
  | cons t surplus ih =>
    refine Work.ensures_through_bind.mpr
      ((Program.ensures_expand_ask (I := replicaCalls) (c := .delete t.id)).mpr ?_)
    refine (ensures_delete hflat h (hsurplus t (List.mem_cons_self ..))).mono ?_
    intro r u hu _
    match r with
    | .ok () => exact ih hu fun x hx => hsurplus x (List.mem_cons_of_mem t hx)
    | .error e => trivial

/-! ### The pass -/

variable {c : Contents}

theorem Approaches.refl (machines : List String) (selector : Labels) (wanted : Nat) (c : Contents) :
    Approaches machines selector wanted c c where
  atLeast := Nat.min_le_left ..
  atMost := Nat.le_max_left ..
  keeps _ _ _ _ _ h := h
  adds _ _ _ _ _ h := h
  spares _ _ _ _ h _ := h

/-- Rising up to what is wanted. -/
theorem Rising.approaches {wanted : Nat} {u : Store} (h : Rising machines selector b wanted u)
    (hb : Documented machines b) (hflat : ∀ m ∈ machines, Flat m) (hmachines : machines.Nodup)
    (hfew : (active b machines selector).length < wanted) :
    Approaches machines selector wanted b u.contents where
  atLeast := by
    have hle := hb.filed.length_active_le h.documented.filed hflat hmachines selector []
      fun id _ hactive => .inl (h.within.active hflat hactive)
    exact Nat.le_trans (Nat.min_le_left ..) hle
  atMost := Nat.le_trans h.atMost (Nat.le_max_right ..)
  keeps _ := h.within
  adds hmany := absurd hmany (Nat.not_le.mpr hfew)
  spares m id t hm ht _ := h.within m id t hm ht

/-- Falling by no more than the surplus. -/
theorem Falling.approaches {wanted : Nat} {u : Store} (h : Falling machines b ids u)
    (hb : Documented machines b) (hflat : ∀ m ∈ machines, Flat m) (hmachines : machines.Nodup)
    (hids : ∀ id ∈ ids, Active b machines selector id)
    (hlength : ids.length ≤ (active b machines selector).length - wanted)
    (hmany : wanted ≤ (active b machines selector).length) :
    Approaches machines selector wanted b u.contents where
  atLeast := by
    have hle := hb.filed.length_active_le h.documented.filed hflat hmachines selector ids
      fun id _ ⟨m, hm, t, ht, hselected⟩ => (h.gone m id t (hflat m hm) ht).imp
        (fun ht' => ⟨m, hm, t, ht', hselected⟩) And.right
    omega
  atMost := by
    have hle := h.documented.filed.length_active_le hb.filed hflat hmachines selector []
      fun id _ hactive => .inl (h.within.active hflat hactive)
    exact Nat.le_trans hle (Nat.le_max_left ..)
  keeps hfew := by
    intro m id t hm ht
    have hnil : ids = [] := List.length_eq_zero_iff.mp (by omega)
    refine (h.gone m id t hm ht).resolve_right fun hgone => ?_
    rw [hnil] at hgone
    cases hgone.2
  adds _ := h.within
  spares m id t hm ht hspared := by
    refine (h.gone m id t hm ht).resolve_right fun ⟨hmem, hid⟩ => ?_
    obtain ⟨m', hm', t', ht', hselected, hlive⟩ := hids id hid
    obtain rfl := hb.alone id m hmem m' hm' (isSome_kept?_of_taskOn? ht)
      (isSome_kept?_of_taskOn? ht')
    obtain rfl := Option.some.inj (ht.symm.trans ht')
    rcases hspared with hended | hother
    · exact hlive hended
    · exact hother hselected

/-- Making up for what is missing stays in range. -/
theorem ensures_makeUp (hschedule : schedule.Picks) (hflat : ∀ m ∈ cluster.machines, Flat m)
    (hmachines : cluster.machines.Nodup) (h : Documented cluster.machines s.contents)
    {wanted : Nat} (hfew : (active s.contents cluster.machines selector).length < wanted)
    (controller : Controller) :
    ((createMissing controller
      (wanted - (active s.contents cluster.machines selector).length)).expand
        (controlBy cluster schedule)).Ensures (serves failing)
      (fun u => Approaches cluster.machines selector wanted s.contents u.contents)
      (fun _ _ => True) s := by
  have hrising : Rising cluster.machines selector s.contents wanted s :=
    ⟨h, .refl s.contents, Nat.le_of_lt hfew⟩
  have hroom : (active s.contents cluster.machines selector).length +
      (wanted - (active s.contents cluster.machines selector).length) ≤ wanted := by omega
  exact (ensures_createMissing hschedule hflat hmachines controller _ hrising hroom).mono_invariant
    fun v hv => hv.approaches h hflat hmachines hfew

/-- Taking away what is too much stays in range. -/
theorem ensures_takeAway (hflat : ∀ m ∈ cluster.machines, Flat m)
    (hmachines : cluster.machines.Nodup) (h : Documented cluster.machines s.contents)
    {wanted : Nat} (hmany : wanted ≤ (active s.contents cluster.machines selector).length) :
    ((deleteSurplus ((active s.contents cluster.machines selector).take
      ((active s.contents cluster.machines selector).length - wanted))).through
        (controlBy cluster schedule)).run.Ensures (serves failing)
      (fun u => Approaches cluster.machines selector wanted s.contents u.contents)
      (fun _ _ => True) s := by
  set surplus := (active s.contents cluster.machines selector).take
    ((active s.contents cluster.machines selector).length - wanted) with hsurplus
  have hfalling : Falling cluster.machines s.contents (surplus.map Task.id) s :=
    ⟨h, .refl s.contents, fun _ _ _ _ ht => .inl ht⟩
  have hactive : ∀ id ∈ surplus.map Task.id, Active s.contents cluster.machines selector id := by
    intro id hid
    obtain ⟨t, ht, rfl⟩ := List.mem_map.mp hid
    exact (h.mem_active_iff hflat).mp (List.mem_map_of_mem (List.mem_of_mem_take ht))
  have hlength : (surplus.map Task.id).length ≤
      (active s.contents cluster.machines selector).length - wanted := by
    rw [List.length_map, hsurplus, List.length_take]
    exact Nat.min_le_left ..
  exact (ensures_deleteSurplus hflat surplus hfalling fun t ht =>
    List.mem_map_of_mem ht).mono_invariant fun v hv =>
      hv.approaches h hflat hmachines hactive hlength hmany

/-- **A pass keeps its range** in every state that it passes through. -/
theorem ensures_pass (hschedule : schedule.Picks) (hflat : ∀ m ∈ cluster.machines, Flat m)
    (hmachines : cluster.machines.Nodup) (h : Documented cluster.machines s.contents)
    (controller : Controller) :
    ((pass controller).through (controlBy cluster schedule)).run.Ensures (serves failing)
      (fun u => Approaches cluster.machines controller.desiredState.replicaSelector
        controller.desiredState.replicas.toNat s.contents u.contents) (fun _ _ => True) s := by
  have hstart := Approaches.refl cluster.machines controller.desiredState.replicaSelector
    controller.desiredState.replicas.toNat s.contents
  rw [pass_eq]
  refine Work.ensures_through_bind.mpr ((Program.ensures_expand_ask (I := replicaCalls)
    (c := .list controller.desiredState.replicaSelector)).mpr ?_)
  refine ensures_onCluster.mpr (Cluster.ensures_ofStore.mpr
    ((ensures_tasks h.lasting hstart cluster.machines _).mono ?_))
  rintro r u - ⟨hu, hr⟩
  rw [hu]
  rcases hr with rfl | ⟨-, e, rfl⟩
  swap
  · trivial
  change ((adjust controller (active s.contents cluster.machines
    controller.desiredState.replicaSelector)).through (controlBy cluster schedule)).run.Ensures ..
  rw [adjust, wantedBy]
  refine Work.ensures_through_bind.mpr (Work.ensures_through_lift.mpr ?_)
  -- from here on what was listed is known, and one of the two numbers is zero
  rcases Nat.lt_or_ge (active s.contents cluster.machines
    controller.desiredState.replicaSelector).length controller.desiredState.replicas.toNat with
    hfew | hmany
  · refine (ensures_makeUp hschedule hflat hmachines h hfew controller).mono fun _ v hv _ => ?_
    refine Work.ensures_through_bind.mpr ?_
    rw [Nat.sub_eq_zero_of_le (Nat.le_of_lt hfew), List.take_zero]
    exact ⟨hv, hv, trivial⟩
  · rw [Nat.sub_eq_zero_of_le hmany]
    refine ⟨hstart, Work.ensures_through_bind.mpr ?_⟩
    refine (ensures_takeAway hflat hmachines h hmany).mono fun r v hv _ => ?_
    cases r with
    | ok _ => exact ⟨hv, trivial⟩
    | error e => trivial

/-- **A pass never overshoots.** Whatever tasks were bound and unbound before, whichever calls
fail and wherever the scheduler puts new tasks, every state that a pass goes through lies in its
range. -/
theorem pass_approaches (hflat : ∀ m ∈ cluster.machines, Flat m)
    (hmachines : cluster.machines.Nodup) (hschedule : schedule.Picks) (controller : Controller)
    {s t : Store} {rest : Program controlCalls (Except Error Outcome)}
    (hstart : Observed failing cluster.machines Proper s)
    (run : Program.Reaches (serves failing)
      ((pass controller).through (controlBy cluster schedule)).run s rest t) :
    Approaches cluster.machines controller.desiredState.replicaSelector
      controller.desiredState.replicas.toNat s.contents t.contents := by
  have hdocumented : Documented cluster.machines s.contents :=
    hstart.induction (fun u => Documented cluster.machines u.contents)
      (documented_empty cluster.machines) fun _ _ hu hop => hu.ensures_work hflat hop
  exact (ensures_pass hschedule hflat hmachines hdocumented controller).invariant_of_reaches run

/-- A partner of a pass that never fails, with ids that follow the changes of the store. -/
def serveReliably (c : ControlCall) (s : Store) : c.Answer × Store :=
  match c with
  | .cluster (.store c) => s.perform 0 c
  | .cluster .turn => ((0 : UInt64), s)
  | .cluster (.pick bound) => ((0 : Fin (bound + 1)), s)
  | .freshId => (taskIdOf (UInt64.ofNat s.contents.index), s)
  | .pause => ((), s)

theorem serves_serveReliably (c : ControlCall) (s : Store) :
    serves False c s (serveReliably c s).1 (serveReliably c s).2 := by
  cases c with
  | cluster c =>
    cases c with
    | store c => exact .performed 0
    | turn => rfl
    | pick bound => rfl
  | freshId => exact ⟨validId_taskIdOf _, rfl⟩
  | pause => rfl

/-- A controller of two replicas on an empty store. The pass creates both, each with its
manifest. -/
theorem pass_approaches_twoMissing :
    let cluster : Cluster := { machines := ["h1", "h2"], policy := .roundRobin }
    let controller : Controller := { id := "web", desiredState := { replicas := 2 } }
    (∀ m ∈ cluster.machines, Flat m) ∧ cluster.machines.Nodup ∧ cluster.place.Picks ∧
    ∃ t rest, Observed False cluster.machines Proper .empty ∧
      Program.Reaches (serves False)
        ((pass controller).through (controlBy cluster cluster.place)).run .empty rest t ∧
      t.contents.entries.keys = [Keys.manifests "h1", Keys.task "h1" "0", Keys.task "h1" "2"] ∧
      Approaches cluster.machines .empty 2 {} t.contents := by
  intro cluster controller
  have hflat : ∀ m ∈ cluster.machines, Flat m := by decide
  have hpicks : cluster.place.Picks := cluster.picks_place hflat
  have hstart : Observed False cluster.machines Proper .empty :=
    ⟨.empty, .delete "0", _, .empty, trivial, .start⟩
  refine ⟨hflat, by decide, hpicks, _, _, hstart, .of_run serves_serveReliably _ _, ?_,
    pass_approaches hflat (by decide) hpicks controller hstart (.of_run serves_serveReliably _ _)⟩
  decide +kernel

end Replication

end ControlPlane
