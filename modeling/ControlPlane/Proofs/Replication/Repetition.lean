import ControlPlane.Proofs.Registry.Lookup
import ControlPlane.Proofs.Replication.Scan

/-!
# One pass after the other

A pass counts what its controller selects and makes the difference up. What it creates bears the
labels of the template and the name of the controller; whether the selector asks for these labels is
another matter, which nobody looks at. If it does, the next pass finds the replicas and creates
none. If it does not, the next pass counts as before and creates the same number again, and so does
every pass after it.

There is no third case. The number that a pass starts from decides what the pass reports, and it is
either made up by the pass or not touched by its creations at all; so the sum over any number of
passes is known from the first count.

## Main definitions

* `selectsOwn`: whether a controller selects the replicas that it creates
* `Passes`: consecutive passes in which nothing fails
* `Balances`: what one pass comes to

## Main results

* `active_iff_of_unbound`: which ids count after a task was unbound
* `ensures_balances`: a pass in which nothing fails
* `passes_create`: how many tasks passes create
* `passes_create_again`: and that this is not bounded by what the controller wants
-/

namespace ControlPlane.Replication

open Contents ControlPlane.Path Keys Program Registry Store StoreWork

variable {machines : List String} {x : Controller} {machine id : String} {c d : Contents}
  {selector : Labels} {failing : Prop} {cluster : Cluster} {schedule : Scheduler} {s t : Store}
  {results : List (Except Error Outcome)}

/-! ### Passes -/

/-- Whether a controller selects the replicas that it creates. -/
def selectsOwn (x : Controller) : Bool :=
  x.desiredState.replicaSelector.Within
    (x.desiredState.taskTemplate.labels.insert "replicationController" x.id)

theorem selectsOwn_iff (x : Controller) :
    selectsOwn x = true ↔ x.desiredState.replicaSelector.Within x.replicaLabels :=
  decide_eq_true_iff

/-- Consecutive passes for a controller with what they report, where nothing fails and nobody else
writes. -/
inductive Passes (cluster : Cluster) (schedule : Scheduler) (x : Controller) :
    Store → List (Except Error Outcome) → Store → Prop
  | none {s : Store} : Passes cluster schedule x s [] s
  | next {s t u : Store} {r : Except Error Outcome} {results : List (Except Error Outcome)} :
      Reaches (manages False (succeeds cluster schedule)) (reconcile x) s (.done r) t →
      Passes cluster schedule x t results u → Passes cluster schedule x s (r :: results) u

/-- How many tasks were created, or deleted, in all. -/
def total (count : Outcome → Nat) : List Outcome → Nat
  | [] => 0
  | o :: outcomes => count o + total count outcomes

@[simp] theorem total_cons (count : Outcome → Nat) (o : Outcome) (outcomes : List Outcome) :
    total count (o :: outcomes) = count o + total count outcomes := rfl

/-- How many live tasks there are, whoever selects them. -/
def population (machines : List String) (c : Contents) : Nat := (active c machines .empty).length

/-- How many live tasks a controller lacks; none if it has too many. -/
def lacking (machines : List String) (c : Contents) (x : Controller) : Nat :=
  x.desiredState.replicas.toNat - live machines c x

/-- What a pass comes to that reports an outcome: it makes the difference up, and what it reports is
what came and went. What came counts for the controller only if it selects its own replicas. -/
structure Balances (machines : List String) (x : Controller) (c d : Contents) (o : Outcome) :
    Prop where
  created : o.created = lacking machines c x
  deleted : o.deleted = live machines c x - x.desiredState.replicas.toNat
  own : live machines d x + o.deleted =
    live machines c x + if selectsOwn x = true then o.created else 0
  all : population machines d + o.deleted = population machines c + o.created

/-! ### One task more, one task less -/

/-- A creation that does not fail adds one replica, whatever the ids of the other tasks are. -/
theorem ensures_newReplica (hschedule : schedule.PicksFrom cluster.machines)
    (hflat : ∀ m ∈ cluster.machines, Flat m) (h : Filed cluster.machines s.contents)
    (x : Controller) :
    (creation cluster schedule x).run.Ensures (serves failing) (fun _ => True)
      (fun r u => ∀ task, r = .ok task → Filed cluster.machines u.contents ∧
        ∃ id, ValidId id ∧ Created cluster.machines x id s.contents u.contents) s := by
  refine ensures_creation_of_binding hschedule h.lasting trivial (fun _ _ htask => nomatch htask)
    fun id hid machine hmachine => ?_
  have hname := hflat machine hmachine
  refine ensures_createTask h hflat trivial (fun _ _ htask => nomatch htask) ?_
  intro u list hfree _ hw
  have hfree' : ∀ m ∈ cluster.machines, s.contents.kept? (Keys.task m id) = none :=
    fun m hm => hfree m (List.mem_cons_of_mem _ hm)
  have hu : Filed cluster.machines u.contents :=
    h.wrote_task (t := (x.replica id).boundTo machine) hflat hname hfree' hw
  refine ⟨trivial, (fun _ _ _ htask => nomatch htask), fun v hv => ⟨trivial, fun _ _ => ?_⟩⟩
  exact ⟨hu.wrote_manifests hflat hname hv, id, hid, fun m hm => taskOn?_eq_none (hfree' m hm),
    machine, hmachine, setsTask_of_bound hname hw hv⟩

/-- **A task that was unbound counts no longer,** and every other task of a valid id counts as
before. -/
theorem active_iff_of_unbound {t : Task} (h : Unbound machine id c d) (hc : Filed machines c)
    (hflat : ∀ m ∈ machines, Flat m) (hlocated : located? c machines id = some (machine, t))
    (hid : ValidId id) {id' : String} (hid' : ValidId id') :
    Active d machines selector id' ↔ id' ≠ id ∧ Active c machines selector id' := by
  obtain ⟨hmachine, t', ht', -⟩ := located?_eq_some hlocated
  have hbelow : ¬ Below id id' := not_below_of_flat hid.trimEnd_ne_nil hid'.flat
  constructor
  · rintro ⟨m, hm, t, ht, hcounts⟩
    rw [h.tasks m id' (hflat m hm)] at ht
    split at ht
    · cases ht
    · rename_i hkept
      refine ⟨?_, m, hm, t, ht, hcounts⟩
      rintro rfl
      exact hkept ⟨hc.alone id' m hm machine hmachine (isSome_kept?_of_taskOn? ht)
        (isSome_kept?_of_taskOn? ht'), .inl rfl⟩
  · rintro ⟨hne, m, hm, t, ht, hcounts⟩
    refine ⟨m, hm, t, ?_, hcounts⟩
    rw [h.tasks m id' (hflat m hm), if_neg fun hgone => hgone.2.elim hne hbelow, ht]

/-! ### One pass -/

/-- **The replicas that are missing** all come, whether or not the controller selects them. -/
theorem ensures_replicas (hschedule : schedule.PicksFrom cluster.machines)
    (hflat : ∀ m ∈ cluster.machines, Flat m) (hmachines : cluster.machines.Nodup)
    (h : Filed cluster.machines s.contents) (x : Controller) (missing : Nat) :
    (createMissing x missing).Ensures (succeeds cluster schedule)
      (fun u => Filed cluster.machines u.contents)
      (fun _ u => ∀ selector, (active u.contents cluster.machines selector).length =
        (active s.contents cluster.machines selector).length +
          if selector.Within x.replicaLabels then missing else 0) s := by
  refine ensures_createMissing_of_step (P := fun n (u : Store) => ∀ selector,
    (active u.contents cluster.machines selector).length =
      (active s.contents cluster.machines selector).length +
        if selector.Within x.replicaLabels then n else 0) ?_ ?_ missing ?_ ?_
  · intro n u hu hcount
    refine (ensures_ask (I := replicaCalls) (c := .create x)).mpr ⟨hu, ?_⟩
    rintro _ v ⟨-, task, run⟩
    obtain ⟨hv, id, hid, hcreated⟩ :=
      (ensures_newReplica hschedule hflat hu x).post_of_reaches run task rfl
    refine ⟨hv, fun selector => ?_⟩
    rw [hcreated.length_active hu hv hflat hmachines hid, hcount]
    split <;> omega
  · intro n u hu hcount
    refine (ensures_ask (I := replicaCalls) (c := .pause)).mpr ⟨hu, fun _ v run => ?_⟩
    obtain rfl : v = u := ensures_pause.post_of_reaches run
    exact ⟨hu, hcount⟩
  · exact h
  · intro selector
    rw [ite_self, Nat.add_zero]

/-- **The tasks that are too many** all go, from the head of the listing. -/
theorem ensures_unbindings (hflat : ∀ m ∈ cluster.machines, Flat m)
    (hmachines : cluster.machines.Nodup) (h : Filed cluster.machines s.contents)
    (surplus : List Task) (hnodup : (surplus.map Task.id).Nodup)
    (hvalid : ∀ t ∈ surplus, ValidId t.id) :
    (deleteSurplus surplus).run.Ensures (succeeds cluster schedule)
      (fun u => Filed cluster.machines u.contents)
      (fun r u => r = .ok () ∧ ∀ selector,
        (∀ t ∈ surplus, Active s.contents cluster.machines selector t.id) →
        (active s.contents cluster.machines selector).length =
          (active u.contents cluster.machines selector).length + surplus.length) s := by
  induction surplus generalizing s with
  | nil => exact ⟨h, rfl, fun _ _ => rfl⟩
  | cons t surplus ih =>
    obtain ⟨hfresh, hnodup⟩ := List.nodup_cons.mp hnodup
    have hid := hvalid t (List.mem_cons_self ..)
    refine Work.ensures_bind.mpr
      ((ensures_ask (I := replicaCalls) (c := .delete t.id)).mpr ⟨h, ?_⟩)
    rintro r u ⟨rfl, run⟩
    have hremoval : (controlBy cluster schedule (.delete t.id)).Ensures (serves False)
        (fun _ => True) _ s :=
      ensures_onCluster.mpr (Cluster.ensures_ofStore.mpr (h.ensures_unbound hflat t.id))
    obtain ⟨hu, machine, t₀, hlocated, hunbound⟩ := (hremoval.post_of_reaches run).1 rfl
    refine ⟨hu, (ih hu hnodup fun t' ht' => hvalid t' (List.mem_cons_of_mem t ht')).mono ?_⟩
    rintro r v - ⟨hr, hcount⟩
    refine ⟨hr, fun selector hactive => ?_⟩
    have hgone : ∀ id', ValidId id' → (Active u.contents cluster.machines selector id' ↔
        id' ≠ t.id ∧ Active s.contents cluster.machines selector id') :=
      fun id' => active_iff_of_unbound hunbound h hflat hlocated hid
    rw [h.length_active_pred hu hflat hmachines hid (hactive t (List.mem_cons_self ..)) hgone,
      hcount selector fun t' ht' => ?_, List.length_cons, Nat.add_assoc]
    -- the ids are distinct, so the other tasks are still there
    refine (hgone t'.id (hvalid t' (List.mem_cons_of_mem t ht'))).mpr
      ⟨fun heq => hfresh ?_, hactive t' (List.mem_cons_of_mem t ht')⟩
    exact heq ▸ List.mem_map_of_mem ht'

/-- A pass that only creates balances. -/
theorem Balances.of_created (hfew : live machines c x ≤ x.desiredState.replicas.toNat)
    (hcount : ∀ selector, (active d machines selector).length =
      (active c machines selector).length +
        if selector.Within x.replicaLabels then lacking machines c x else 0) :
    Balances machines x c d { created := lacking machines c x } where
  created := rfl
  deleted := (Nat.sub_eq_zero_of_le hfew).symm
  own := by
    rw [if_congr (selectsOwn_iff x) rfl rfl]
    exact hcount x.desiredState.replicaSelector
  all := hcount .empty

/-- A pass that only deletes balances, since all that it deletes is alive. -/
theorem Balances.of_deleted (hmany : x.desiredState.replicas.toNat ≤ live machines c x)
    (hlive : live machines c x =
      live machines d x + (live machines c x - x.desiredState.replicas.toNat))
    (hpopulation : population machines c =
      population machines d + (live machines c x - x.desiredState.replicas.toNat)) :
    Balances machines x c d { deleted := live machines c x - x.desiredState.replicas.toNat } where
  created := (Nat.sub_eq_zero_of_le hmany).symm
  deleted := rfl
  own := by
    rw [ite_self]
    exact hlive.symm
  all := hpopulation.symm

/-- **A pass in which nothing fails balances,** whatever its controller selects. -/
theorem ensures_balances (hschedule : schedule.PicksFrom cluster.machines)
    (hflat : ∀ m ∈ cluster.machines, Flat m) (hmachines : cluster.machines.Nodup)
    (h : Filed cluster.machines s.contents) (x : Controller) :
    (pass x).run.Ensures (succeeds cluster schedule) (fun u => Filed cluster.machines u.contents)
      (fun r u => ∃ o, r = .ok o ∧ Balances cluster.machines x s.contents u.contents o) s := by
  refine ensures_pass_of_live hflat hmachines h h rfl rfl (fun hfew => ?_)
    fun hmany surplus hlength hnodup hcounted => ?_
  · refine (ensures_replicas hschedule hflat hmachines h x _).mono fun _ v _ hcount => ?_
    exact ⟨_, rfl, .of_created hfew hcount⟩
  · refine (ensures_unbindings hflat hmachines h surplus hnodup
      fun t ht => (hcounted t ht).1).mono ?_
    rintro _ v - ⟨rfl, hcount⟩
    rw [hlength] at hcount
    refine ⟨_, rfl, .of_deleted hmany (hcount _ fun t ht => (hcounted t ht).2)
      (hcount .empty fun t ht => ?_)⟩
    -- what is deleted is alive, whatever selects it
    obtain ⟨m, hm, t', ht', -, hlive⟩ := (hcounted t ht).2
    exact ⟨m, hm, t', ht', Labels.empty_within _, hlive⟩

/-! ### Any number of passes -/

/-- After a pass nothing is missing, if the controller selects its own replicas; otherwise as much
is missing as before. -/
theorem Balances.lacking_eq {o : Outcome} (h : Balances machines x c d o) :
    lacking machines d x = if selectsOwn x = true then 0 else lacking machines c x := by
  have hcreated := h.created
  have hdeleted := h.deleted
  have hown := h.own
  unfold lacking at *
  split at hown
  · rw [if_pos ‹_›]
    omega
  · rw [if_neg ‹_›]
    omega

/-- **How many tasks passes create.** Whatever tasks and controllers were written and removed
before, with any ids and with whatever failures, and however new tasks are placed on the machines of
the cluster: passes for a controller in which nothing fails all come to their end, and what they
report to be created and deleted is what came and went. If the controller selects its own replicas,
they create no more tasks in all than it lacked at first. If it does not, every one of them creates
as many as it lacked at first. -/
theorem passes_create (hflat : ∀ m ∈ cluster.machines, Flat m) (hmachines : cluster.machines.Nodup)
    (hschedule : schedule.PicksFrom cluster.machines) (hs : Held failing cluster.machines s)
    (run : Passes cluster schedule x s results t) :
    ∃ outcomes : List Outcome, results = outcomes.map .ok ∧
      population cluster.machines t.contents + total Outcome.deleted outcomes =
        population cluster.machines s.contents + total Outcome.created outcomes ∧
      (selectsOwn x = true →
        total Outcome.created outcomes ≤ lacking cluster.machines s.contents x) ∧
      (selectsOwn x = false → total Outcome.created outcomes =
        outcomes.length * lacking cluster.machines s.contents x) := by
  -- passes are not requests, so the induction carries what requests leave
  have h : Filed cluster.machines s.contents := (hs.orderly hflat).filed
  clear hs
  induction run with
  | none => exact ⟨[], rfl, rfl, fun _ => Nat.zero_le _, fun _ => (Nat.zero_mul _).symm⟩
  | @next s t u r results run _ ih =>
    have hpass : (reconcile x).Ensures (manages False (succeeds cluster schedule)) _ _ s :=
      ensures_reconcile (fun _ _ _ h => h) (fun _ _ _ h => h)
        (ensures_balances hschedule hflat hmachines h x)
    obtain ⟨o, rfl, hbalances⟩ := hpass.post_of_reaches run
    obtain ⟨outcomes, rfl, hpopulation, hown, hother⟩ := ih (hpass.invariant_of_reaches run)
    have hone := hbalances.all
    have hfirst := hbalances.created
    have hlacking := hbalances.lacking_eq
    refine ⟨o :: outcomes, rfl, ?_, fun hselects => ?_, fun hselects => ?_⟩
    · rw [total_cons, total_cons]
      omega
    · -- the first pass leaves nothing to be done for the others
      rw [if_pos hselects] at hlacking
      have hrest := hown hselects
      rw [total_cons]
      omega
    · rw [hselects, if_neg Bool.false_ne_true] at hlacking
      have hrest := hother hselects
      rw [total_cons, hfirst, hrest, hlacking, List.length_cons, Nat.succ_mul, Nat.add_comm]

theorem succeeds_list (h : s.contents.Lasting) (selector : Labels) :
    succeeds cluster schedule (.list selector) s
      (.ok (selectedOn s.contents cluster.machines selector)) s := by
  have run := Reaches.of_run serves_serveReliably (controlBy cluster schedule (.list selector)) s
  obtain ⟨hstore, hlisted⟩ := (ensures_listing h selector).post_of_reaches run
  rw [hstore, hlisted.resolve_right And.left] at run
  exact run

/-- The pass for a controller that lacks one task, call by call. -/
theorem reaches_reconcile (h : s.contents.Lasting)
    (hlacking : lacking cluster.machines s.contents x = 1)
    (hcreate : succeeds cluster schedule (.create x) s () t) :
    Reaches (manages False (succeeds cluster schedule)) (reconcile x) s
      (.done (.ok { created := 1 })) t := by
  have hacquire : manages False (succeeds cluster schedule) .acquire s () s := rfl
  have hlist : manages False (succeeds cluster schedule) (.replica (.list _)) s _ s :=
    succeeds_list h x.desiredState.replicaSelector
  have hreplica : manages False (succeeds cluster schedule) (.replica (.create x)) s () t := hcreate
  have hrelease : manages False (succeeds cluster schedule) .release t () t := rfl
  have hmissing : wantedBy x - (liveOf (selectedOn s.contents cluster.machines
      x.desiredState.replicaSelector)).length = 1 := hlacking
  rw [reconcile, pass_eq]
  refine .of_call hacquire (.of_call hlist ?_)
  change Reaches _ (((adjust x (liveOf _)).run.expand fun c =>
    ask (I := managerCalls) (.replica c)).bind _) s _ t
  rw [adjust, hmissing, Nat.sub_eq_zero_of_le (by omega), List.take_zero]
  exact .of_call hreplica (.of_call hrelease .start)

/-- A cluster with one machine, so that there is no choice where a replica goes. -/
def webCluster : Cluster := { machines := ["h1"], policy := .roundRobin }

/-- A controller that wants one task. Its template does not have the label that it selects by. -/
def stray : Controller where
  id := "web"
  desiredState := { replicas := 1, replicaSelector := .ofList [("app", "web")] }

/-- A store with this controller and without tasks. -/
def strayStore : Store :=
  ((Registry.setController stray).run.run (fun c u => u.perform 0 c) .empty).2

theorem held_strayStore : Held False webCluster.machines strayStore :=
  .request .empty (q := .setController stray) trivial (.of_run (fun _ _ => .performed 0) _ _)

theorem controllerOn?_strayStore : controllerOn? strayStore.contents stray.id = some stray := by
  have hwrote : ({} : Contents).Wrote strayStore.contents (Keys.controller "web") stray.encode :=
    Contents.wrote_put {} 0 .set _ _
  have hentry := hwrote.kept? (Keys.controller "web")
  rw [if_pos rfl] at hentry
  exact controllerOn?_of_kept? hentry rfl

/-- The store after the creation of a replica. -/
def strayAfter (s : Store) : Store :=
  ((creation webCluster webCluster.place stray).run.run serveReliably s).2

/-- A replica that comes off leaves this controller without a task. -/
theorem strayAfter_lacking (h : Filed webCluster.machines s.contents)
    (hlacking : lacking webCluster.machines s.contents stray = 1)
    (hroom : ((creation webCluster webCluster.place stray).run.run serveReliably s).1.isOk = true) :
    Reaches (manages False (succeeds webCluster webCluster.place)) (reconcile stray) s
        (.done (.ok { created := 1 })) (strayAfter s) ∧
      Filed webCluster.machines (strayAfter s).contents ∧
      lacking webCluster.machines (strayAfter s).contents stray = 1 := by
  have hflat : ∀ m ∈ webCluster.machines, Flat m := by decide
  have run := Reaches.of_run serves_serveReliably (creation webCluster webCluster.place stray).run s
  obtain ⟨task, htask⟩ := eq_ok_of_isOk hroom
  rw [htask] at run
  obtain ⟨hu, id, hid, hcreated⟩ :=
    (ensures_newReplica webCluster.picksFrom_place hflat h stray).post_of_reaches run task rfl
  refine ⟨reaches_reconcile h.lasting hlacking (succeeds_create run), hu, ?_⟩
  rw [strayAfter, lacking, live, hcreated.length_active h hu hflat (by decide) hid,
    if_neg (by decide +kernel), Nat.add_zero]
  exact hlacking

/-- Two passes for this controller, each of which creates a replica. -/
theorem passes_stray : ∃ t, Passes webCluster webCluster.place stray strayStore
    [.ok { created := 1 }, .ok { created := 1 }] t := by
  have hfiled := (held_strayStore.orderly (by decide)).filed
  obtain ⟨run, hfiled', hlacking⟩ :=
    strayAfter_lacking hfiled (by decide +kernel) (by decide +kernel)
  obtain ⟨run', -⟩ := strayAfter_lacking hfiled' hlacking (by decide +kernel)
  exact ⟨_, .next run (.next run' .none)⟩

/-- Each of these passes creates the one task that the controller lacks, and there are two then. -/
theorem passes_create_stray :
    (∀ m ∈ webCluster.machines, Flat m) ∧ webCluster.machines.Nodup ∧
      webCluster.place.PicksFrom webCluster.machines ∧
      Held False webCluster.machines strayStore ∧ selectsOwn stray = false ∧
      lacking webCluster.machines strayStore.contents stray = 1 ∧
    ∃ t, Passes webCluster webCluster.place stray strayStore
        [.ok { created := 1 }, .ok { created := 1 }] t ∧
      population webCluster.machines t.contents = 2 := by
  have hflat : ∀ m ∈ webCluster.machines, Flat m := by decide
  have hselects : selectsOwn stray = false := by decide +kernel
  obtain ⟨t, run⟩ := passes_stray
  obtain ⟨outcomes, hresults, hpopulation, -, hother⟩ :=
    passes_create hflat (by decide) webCluster.picksFrom_place held_strayStore run
  obtain rfl : [{ created := 1 }, { created := 1 }] = outcomes :=
    List.map_injective_iff.mpr (fun _ _ => Except.ok.inj) hresults
  have hnone : population webCluster.machines strayStore.contents = 0 := by decide +kernel
  have htotal : 2 = 2 * lacking webCluster.machines strayStore.contents stray := hother hselects
  refine ⟨hflat, by decide, webCluster.picksFrom_place, held_strayStore, hselects, ?_, t, run, ?_⟩
  · omega
  · rw [hnone] at hpopulation
    exact hpopulation

/-- **What passes create is not bounded by what the controller wants.** -/
theorem passes_create_again :
    ¬ ∀ (cluster : Cluster) (x : Controller) (s t : Store) (outcomes : List Outcome),
      (∀ m ∈ cluster.machines, Flat m) → cluster.machines.Nodup →
      Held False cluster.machines s → controllerOn? s.contents x.id = some x →
      Passes cluster cluster.place x s (outcomes.map .ok) t →
      total Outcome.created outcomes ≤ x.desiredState.replicas.toNat := by
  intro h
  obtain ⟨t, run⟩ := passes_stray
  exact absurd (h webCluster stray strayStore t [{ created := 1 }, { created := 1 }] (by decide)
    (by decide) held_strayStore controllerOn?_strayStore run) (by decide)

end ControlPlane.Replication
