import ControlPlane.Proofs.Replication.Effects
import ControlPlane.Replication.Manager

/-!
# A scan settles all controllers

A scan makes a pass for each stored controller, one after the other, and every pass changes the
tasks that the passes behind it count. Membership is by labels alone, so whether passes disturb each
other is a matter of the selectors: if no task is selected by two controllers and replicas are
selected by their own controller only, then a creation adds one live task to its controller and none
to the others, and a deletion takes one from its controller and none from the others. A pass in
which nothing fails therefore brings its controller to the wanted number and leaves the numbers of
the others where they are, and after a scan all of them are what they shall be at once.

A scan that finds them so changes nothing, whatever fails then.

## Main definitions

* `Apart`: controllers that do not interfere
* `live`: how many live tasks a controller has
* `manages`: the answers to the calls of the manager

## Main results

* `Apart.live_created`, `Apart.live_removed`: what one change does to the numbers of all controllers
* `ensures_createMissing_of_step`, `ensures_pass_of_live`: the rules for passes where nothing fails
* `ensures_settling`: what one pass does to the numbers
* `scan_settles`
-/

namespace ControlPlane.Replication

open ControlPlane.Path Keys Program Registry Store StoreWork

variable {machines : List String} {controllers : List Controller} {x : Controller}
  {id : String} {b c d : Contents} {failing : Prop} {cluster : Cluster} {schedule : Scheduler}
  {s t : Store}

/-! ### Controllers that do not interfere -/

/-- No task is selected by two of the controllers, and a replica is selected by its own controller
and by no other. -/
structure Apart (machines : List String) (controllers : List Controller) (c : Contents) : Prop where
  tasks : ∀ m ∈ machines, ∀ id t, taskOn? c m id = some t → ∀ x ∈ controllers, ∀ y ∈ controllers,
    x.desiredState.replicaSelector.Within t.labels →
    y.desiredState.replicaSelector.Within t.labels → x = y
  replicas : ∀ x ∈ controllers, ∀ y ∈ controllers,
    y.desiredState.replicaSelector.Within
      (x.desiredState.taskTemplate.labels.insert "replicationController" x.id) ↔ x = y

/-- How many live tasks a controller selects, on all machines together. -/
def live (machines : List String) (c : Contents) (x : Controller) : Nat :=
  (active c machines x.desiredState.replicaSelector).length

/-- The numbers of the other controllers are what they were. -/
def OthersStay (machines : List String) (controllers : List Controller) (x : Controller)
    (c d : Contents) : Prop :=
  ∀ y ∈ controllers, y ≠ x → live machines d y = live machines c y

/-- Tasks that have ended stay, and those that no controller selects. -/
def Spares (controllers : List Controller) (c d : Contents) : Prop :=
  ∀ m id t, Flat m → taskOn? c m id = some t →
    (t.HasEnded ∨
      ∀ x ∈ controllers, ¬ x.desiredState.replicaSelector.Within t.labels) →
    taskOn? d m id = some t

/-- What holds while passes are made for some controllers, since the contents were `b`. -/
structure Underway (machines : List String) (controllers : List Controller) (b c : Contents) :
    Prop where
  governed : Governed machines c
  same : SameControllers b c
  apart : Apart machines controllers c
  spares : Spares controllers b c

theorem OthersStay.trans (h : OthersStay machines controllers x b c)
    (h' : OthersStay machines controllers x c d) : OthersStay machines controllers x b d :=
  fun y hy hne => (h' y hy hne).trans (h y hy hne)

theorem Spares.trans (h : Spares controllers b c) (h' : Spares controllers c d) :
    Spares controllers b d :=
  fun m id t hm ht hspared => h' m id t hm (h m id t hm ht hspared) hspared

/-! ### A creation -/

theorem Apart.selects_replica (h : Apart machines controllers c) {y : Controller}
    (hx : x ∈ controllers) (hy : y ∈ controllers) :
    y.desiredState.replicaSelector.Within x.replicaLabels ↔ x = y :=
  h.replicas x hx y hy

/-- A new replica is selected by its own controller only. -/
theorem Apart.created (h : Apart machines controllers c) (hflat : ∀ m ∈ machines, Flat m)
    (hx : x ∈ controllers) (hcreated : Created machines x id c d) :
    Apart machines controllers d where
  tasks := by
    obtain ⟨-, machine, -, hset⟩ := hcreated
    intro m hm id' t ht y hy z hz hyt hzt
    rw [hset m id' (hflat m hm)] at ht
    split at ht
    · obtain rfl := Option.some.inj ht
      exact ((h.selects_replica hx hy).mp hyt).symm.trans ((h.selects_replica hx hz).mp hzt)
    · exact h.tasks m hm id' t ht y hy z hz hyt hzt
  replicas := h.replicas

theorem Spares.created (hcreated : Created machines x id c d) : Spares controllers c d := by
  obtain ⟨hfree, machine, hmachine, hset⟩ := hcreated
  intro m id' t hm ht _
  rw [hset m id' hm, if_neg, ht]
  rintro ⟨rfl, rfl⟩
  rw [hfree m hmachine] at ht
  cases ht

/-- **A new replica counts for its controller and for no other.** -/
theorem Apart.live_created (h : Apart machines controllers c) (hc : Documented machines c)
    (hd : Documented machines d) (hflat : ∀ m ∈ machines, Flat m) (hmachines : machines.Nodup)
    (hx : x ∈ controllers) (hcreated : Created machines x id c d) :
    live machines d x = live machines c x + 1 ∧ OthersStay machines controllers x c d := by
  have hid : ValidId id := by
    obtain ⟨-, machine, hmachine, hset⟩ := hcreated
    have ht := hset machine id (hflat machine hmachine)
    rw [if_pos ⟨rfl, rfl⟩] at ht
    exact hd.validId (hflat machine hmachine) (isSome_kept?_of_taskOn? ht)
  have hcount := hcreated.length_active hc.filed hd.filed hflat hmachines hid
  constructor
  · rw [live, hcount, if_pos ((h.selects_replica hx hx).mpr rfl)]
    rfl
  · intro y hy hne
    rw [live, hcount, if_neg fun heq => hne ((h.selects_replica hx hy).mp heq).symm]
    rfl

/-! ### A deletion -/

theorem Apart.removed (h : Apart machines controllers c) (hflat : ∀ m ∈ machines, Flat m)
    (hremoved : Removed machines id c d) : Apart machines controllers d where
  tasks := by
    obtain ⟨machine, -, -, hset⟩ := hremoved
    intro m hm id' t ht
    rw [hset m id' (hflat m hm)] at ht
    split at ht
    · cases ht
    · exact h.tasks m hm id' t ht
  replicas := h.replicas

/-- Wherever the document of a selected id is found, it is that of the selected task. -/
theorem selected_of_active {selector : Labels} {t : Task} {m : String} (hc : Documented machines c)
    (hactive : Active c machines selector id) (hm : m ∈ machines)
    (ht : taskOn? c m id = some t) :
    selector.Within t.labels ∧ ¬ t.HasEnded := by
  obtain ⟨m', hm', t', ht', hselected⟩ := hactive
  obtain rfl := hc.alone id m hm m' hm' (isSome_kept?_of_taskOn? ht) (isSome_kept?_of_taskOn? ht')
  obtain rfl := Option.some.inj (ht.symm.trans ht')
  exact hselected

theorem Spares.removed (hc : Documented machines c) (hx : x ∈ controllers)
    (hactive : Active c machines x.desiredState.replicaSelector id)
    (hremoved : Removed machines id c d) : Spares controllers c d := by
  obtain ⟨machine, hmachine, -, hset⟩ := hremoved
  intro m id' t hm ht hspared
  rw [hset m id' hm, if_neg, ht]
  rintro ⟨rfl, rfl⟩
  obtain ⟨hselected, hlive⟩ := selected_of_active hc hactive hmachine ht
  rcases hspared with hended | hunselected
  · exact hlive hended
  · exact hunselected x hx hselected

/-- **A task that a controller gives up counted for it and for no other.** -/
theorem Apart.live_removed (h : Apart machines controllers c) (hc : Documented machines c)
    (hd : Documented machines d) (hflat : ∀ m ∈ machines, Flat m) (hmachines : machines.Nodup)
    (hx : x ∈ controllers) (hactive : Active c machines x.desiredState.replicaSelector id)
    (hremoved : Removed machines id c d) :
    live machines c x = live machines d x + 1 ∧ OthersStay machines controllers x c d := by
  constructor
  · have hid : ValidId id := by
      obtain ⟨m, hm, t, ht, -⟩ := hactive
      exact hc.validId (hflat m hm) (isSome_kept?_of_taskOn? ht)
    exact hc.filed.length_active_pred hd.filed hflat hmachines hid hactive
      fun id' _ => hremoved.active_iff hc hflat id'
  · intro y hy hne
    refine hd.filed.length_active_congr hc.filed hflat hmachines fun id' _ => ?_
    rw [hremoved.active_iff hc hflat]
    refine ⟨fun hid => hid.2, fun hid => ⟨?_, hid⟩⟩
    rintro rfl
    obtain ⟨m, hm, t, ht, hyt, -⟩ := hid
    exact hne (h.tasks m hm id' t ht y hy x hx hyt (selected_of_active hc hactive hm ht).1)

/-! ### One pass -/

/-- A call of a pass where nothing fails that creates a replica. -/
theorem ensures_created (hschedule : schedule.PicksFrom cluster.machines)
    (hflat : ∀ m ∈ cluster.machines, Flat m) (hmachines : cluster.machines.Nodup)
    (h : Underway cluster.machines controllers b s.contents) (hx : x ∈ controllers) :
    (ask (I := replicaCalls) (.create x)).Ensures (succeeds cluster schedule)
      (fun u => Underway cluster.machines controllers b u.contents)
      (fun _ u => live cluster.machines u.contents x = live cluster.machines s.contents x + 1 ∧
        OthersStay cluster.machines controllers x s.contents u.contents) s := by
  refine (ensures_ask (I := replicaCalls) (c := .create x)).mpr ⟨h, ?_⟩
  rintro _ u ⟨-, task, run⟩
  have hcreation : (creation cluster schedule x).run.Ensures (serves False) _ _ s :=
    ensures_creation hschedule hflat h.governed x
  have hu : Governed cluster.machines u.contents := hcreation.invariant_of_reaches run
  obtain ⟨⟨id, hcreated⟩, hsame⟩ := hcreation.post_of_reaches run task rfl
  refine ⟨⟨hu, h.same.trans hsame, h.apart.created hflat hx hcreated,
    h.spares.trans (.created hcreated)⟩, ?_⟩
  exact h.apart.live_created h.governed.documented hu.documented hflat hmachines hx hcreated

/-- A call of a pass where nothing fails that deletes a live task. -/
theorem ensures_deleted (hflat : ∀ m ∈ cluster.machines, Flat m)
    (hmachines : cluster.machines.Nodup)
    (h : Underway cluster.machines controllers b s.contents) (hx : x ∈ controllers)
    (hactive : Active s.contents cluster.machines x.desiredState.replicaSelector id) :
    (ask (I := replicaCalls) (.delete id)).Ensures (succeeds cluster schedule)
      (fun u => Underway cluster.machines controllers b u.contents)
      (fun r u => r = .ok () ∧ Removed cluster.machines id s.contents u.contents ∧
        live cluster.machines s.contents x = live cluster.machines u.contents x + 1 ∧
        OthersStay cluster.machines controllers x s.contents u.contents) s := by
  refine (ensures_ask (I := replicaCalls) (c := .delete id)).mpr ⟨h, ?_⟩
  rintro r u ⟨hr, run⟩
  have hremoval : (controlBy cluster schedule (.delete id)).Ensures (serves False) _ _ s :=
    ensures_removal hflat h.governed id
  have hu : Governed cluster.machines u.contents := hremoval.invariant_of_reaches run
  obtain ⟨hremoved, hsame⟩ := hremoval.post_of_reaches run hr
  refine ⟨⟨hu, h.same.trans hsame, h.apart.removed hflat hremoved,
    h.spares.trans (.removed h.governed.documented hx hactive hremoved)⟩, hr, hremoved, ?_⟩
  exact h.apart.live_removed h.governed.documented hu.documented hflat hmachines hx hactive hremoved

/-- The rule for creating replicas: what a creation leads from one number to the next, and a pause
does not touch, is led to the number of all creations. -/
theorem ensures_createMissing_of_step {σ : Type} {step : replicaCalls.Steps σ} {inv : σ → Prop}
    {P : Nat → σ → Prop}
    (hcreate : ∀ n u, inv u → P n u →
      (ask (I := replicaCalls) (.create x)).Ensures step inv (fun _ => P (n + 1)) u)
    (hpause : ∀ n u, inv u → P n u →
      (ask (I := replicaCalls) .pause).Ensures step inv (fun _ => P n) u)
    (missing : Nat) {s : σ} (hinv : inv s) (h : P 0 s) :
    (createMissing x missing).Ensures step inv (fun _ => P missing) s := by
  induction missing using Nat.strongRecOn generalizing P s with
  | ind missing ih =>
    match missing with
    | 0 => exact ⟨hinv, h⟩
    | 1 => exact hcreate 0 s hinv h
    | missing + 2 =>
      rw [createMissing]
      refine Ensures.bind (hcreate 0 s hinv h) fun _ u hu hafter => ?_
      refine Ensures.bind (hpause 1 u hu hafter) fun _ v hv hafter' => ?_
      -- the rest counts on from the creation that was made
      exact ih (missing + 1) (by omega) (P := fun n => P (n + 1)) (fun n => hcreate (n + 1))
        (fun n => hpause (n + 1)) hv hafter'

/-- **The replicas that are missing** all come, and the numbers of the other controllers stay. -/
theorem ensures_madeUp (hschedule : schedule.PicksFrom cluster.machines)
    (hflat : ∀ m ∈ cluster.machines, Flat m) (hmachines : cluster.machines.Nodup)
    (h : Underway cluster.machines controllers b s.contents) (hx : x ∈ controllers)
    (missing : Nat) :
    (createMissing x missing).Ensures (succeeds cluster schedule)
      (fun u => Underway cluster.machines controllers b u.contents)
      (fun _ u => live cluster.machines u.contents x =
          live cluster.machines s.contents x + missing ∧
        OthersStay cluster.machines controllers x s.contents u.contents) s := by
  refine ensures_createMissing_of_step (P := fun n (u : Store) =>
    live cluster.machines u.contents x = live cluster.machines s.contents x + n ∧
      OthersStay cluster.machines controllers x s.contents u.contents)
    ?_ ?_ missing ?_ ⟨rfl, fun _ _ _ => rfl⟩
  · rintro n u hu ⟨hlive, hothers⟩
    refine (ensures_created hschedule hflat hmachines hu hx).mono ?_
    rintro _ v - ⟨hlive', hothers'⟩
    exact ⟨by omega, hothers.trans hothers'⟩
  · intro n u hu hafter
    refine (ensures_ask (I := replicaCalls) (c := .pause)).mpr ⟨hu, fun _ v run => ?_⟩
    obtain rfl : v = u := ensures_pause.post_of_reaches run
    exact ⟨hu, hafter⟩
  · exact h

/-- **The tasks that are too many** all go, and the numbers of the other controllers stay. -/
theorem ensures_takenAway (hflat : ∀ m ∈ cluster.machines, Flat m)
    (hmachines : cluster.machines.Nodup)
    (h : Underway cluster.machines controllers b s.contents) (hx : x ∈ controllers)
    (surplus : List Task) (hnodup : (surplus.map Task.id).Nodup)
    (hactive : ∀ t ∈ surplus,
      Active s.contents cluster.machines x.desiredState.replicaSelector t.id) :
    (deleteSurplus surplus).run.Ensures (succeeds cluster schedule)
      (fun u => Underway cluster.machines controllers b u.contents)
      (fun r u => r = .ok () ∧ live cluster.machines s.contents x =
          live cluster.machines u.contents x + surplus.length ∧
        OthersStay cluster.machines controllers x s.contents u.contents) s := by
  induction surplus generalizing s with
  | nil => exact ⟨h, rfl, rfl, fun _ _ _ => rfl⟩
  | cons t surplus ih =>
    obtain ⟨hfresh, hnodup⟩ := List.nodup_cons.mp hnodup
    refine Work.Ensures.bind (ensures_deleted hflat hmachines h hx
      (hactive t (List.mem_cons_self ..))) ?_ ?_
    · rintro _ u hu ⟨-, hremoved, hlive, hothers⟩
      refine (ih hu hnodup fun t' ht' => ?_).mono ?_
      · -- the ids are distinct, so the other tasks are still there
        refine (hremoved.active_iff h.governed.documented hflat t'.id).mpr
          ⟨fun heq => hfresh ?_, hactive t' (List.mem_cons_of_mem t ht')⟩
        exact heq ▸ List.mem_map_of_mem ht'
      · rintro r v - ⟨hr, hlive', hothers'⟩
        exact ⟨hr, by rw [List.length_cons]; omega, hothers.trans hothers'⟩
    · rintro e u - ⟨he, -⟩
      cases he

/-- The rule for passes: they create as many replicas as are missing, or delete as many different
live tasks as there are too many. -/
theorem ensures_pass_of_live {inv : Store → Prop} {post : Except Error Outcome → Store → Prop}
    (hflat : ∀ m ∈ cluster.machines, Flat m) (hmachines : cluster.machines.Nodup)
    (h : Filed cluster.machines s.contents) (hinv : inv s) {number wanted : Nat}
    (hnumber : live cluster.machines s.contents x = number)
    (hwanted : x.desiredState.replicas.toNat = wanted)
    (hfew : number ≤ wanted → (createMissing x (wanted - number)).Ensures
      (succeeds cluster schedule) inv (fun _ u => post (.ok { created := wanted - number }) u) s)
    (hmany : wanted ≤ number → ∀ surplus : List Task, surplus.length = number - wanted →
      (surplus.map Task.id).Nodup →
      (∀ t ∈ surplus, ValidId t.id ∧
        Active s.contents cluster.machines x.desiredState.replicaSelector t.id) →
      (deleteSurplus surplus).run.Ensures (succeeds cluster schedule) inv
        (fun r u => post (r.map fun _ => { deleted := number - wanted }) u) s) :
    (pass x).run.Ensures (succeeds cluster schedule) inv post s := by
  subst hnumber hwanted
  rw [pass_eq]
  refine Work.Ensures.bind (m := fun r u => u = s ∧
    r = .ok (selectedOn s.contents cluster.machines x.desiredState.replicaSelector))
    ((ensures_ask (I := replicaCalls) (c := .list x.desiredState.replicaSelector)).mpr ⟨hinv, ?_⟩)
    ?_ ?_
  · intro r u run
    obtain ⟨rfl, hr⟩ := (ensures_listing h.lasting _).post_of_reaches run
    exact ⟨hinv, rfl, hr.resolve_right And.left⟩
  swap
  · rintro e u - ⟨-, he⟩
    cases he
  rintro selected u - ⟨rfl, hselected⟩
  obtain rfl := Except.ok.inj hselected
  set tasks := active u.contents cluster.machines x.desiredState.replicaSelector
  set wanted := x.desiredState.replicas.toNat
  change (adjust x tasks).run.Ensures ..
  rw [adjust, wantedBy]
  -- one of the two numbers is zero
  rcases Nat.le_total tasks.length wanted with hle | hle
  · refine Work.ensures_bind.mpr (Work.ensures_lift.mpr ((hfew hle).mono fun _ v hv hpost => ?_))
    rw [Nat.sub_eq_zero_of_le hle, List.take_zero]
    exact ⟨hv, hpost⟩
  · rw [Nat.sub_eq_zero_of_le hle]
    obtain ⟨hnodup, hcounted⟩ := h.take_active hflat hmachines x.desiredState.replicaSelector
      (tasks.length - wanted)
    refine Work.ensures_bind.mpr (Work.ensures_lift.mpr ⟨hinv, Work.ensures_bind.mpr ?_⟩)
    refine (hmany hle _ (List.length_take_of_le (Nat.sub_le ..)) hnodup hcounted).mono
      fun r v hv hpost => ?_
    cases r with
    | ok _ => exact ⟨hv, hpost⟩
    | error e => exact hpost

/-- **A pass in which nothing fails settles its controller** and leaves the numbers of the others
where they are. -/
theorem ensures_settling (hschedule : schedule.PicksFrom cluster.machines)
    (hflat : ∀ m ∈ cluster.machines, Flat m) (hmachines : cluster.machines.Nodup)
    (h : Underway cluster.machines controllers b s.contents) (hx : x ∈ controllers) :
    (pass x).run.Ensures (succeeds cluster schedule)
      (fun u => Underway cluster.machines controllers b u.contents)
      (fun _ u => live cluster.machines u.contents x = x.desiredState.replicas.toNat ∧
        OthersStay cluster.machines controllers x s.contents u.contents) s := by
  refine ensures_pass_of_live hflat hmachines h.governed.documented.filed h rfl rfl
    (fun hfew => ?_) fun hmany surplus hlength hnodup hcounted => ?_
  · refine (ensures_madeUp hschedule hflat hmachines h hx _).mono ?_
    rintro _ v - ⟨hlive, hothers⟩
    exact ⟨by omega, hothers⟩
  · refine (ensures_takenAway hflat hmachines h hx surplus hnodup
      fun t ht => (hcounted t ht).2).mono ?_
    rintro _ v - ⟨-, hlive, hothers⟩
    exact ⟨by omega, hothers⟩

/-! ### One scan -/

/-- The answers to the calls of the manager, on a store that may fail, while nobody else acts: only
calls on the store and on replicas do anything. -/
def manages (failing : Prop) (step : replicaCalls.Steps Store) : managerCalls.Steps Store
  | .store c, s, a, t => Store.serves failing c s a t
  | .replica c, s, a, t => step c s a t
  | .acquire, s, _, t => t = s
  | .release, s, _, t => t = s
  | .wait _, s, _, t => t = s
  | .receive _, s, _, t => t = s

/-- Work on the store is the same for the manager. -/
theorem ensures_onStore {α : Type} {step : replicaCalls.Steps Store} {inv : Store → Prop}
    {post : Except Error α → Store → Prop} {w : StoreWork α} :
    (w.run.expand fun c => ask (I := managerCalls) (.store c)).Ensures (manages failing step) inv
      post s ↔ w.run.Ensures (Store.serves failing) inv post s :=
  ensures_expand fun _ _ _ _ => ensures_ask

/-- The lock is taken before a pass and given back behind it, and nothing else is done. -/
theorem ensures_reconcile {σ : Type} {step : managerCalls.Steps σ} {inv : σ → Prop}
    {post : Except Error Outcome → σ → Prop} {s : σ}
    (hacquire : ∀ s a t, step .acquire s a t → t = s)
    (hrelease : ∀ s a t, step .release s a t → t = s)
    (h : (pass x).run.Ensures (fun c => step (.replica c)) inv post s) :
    (reconcile x).Ensures step inv post s := by
  have hpass : ((pass x).run.expand fun c => ask (I := managerCalls) (.replica c)).Ensures step inv
      post s := by
    refine (ensures_expand ?_).mpr h
    exact fun _ _ _ _ => ensures_ask
  refine Ensures.bind (m := fun _ t => t = s)
    ((ensures_ask (I := managerCalls) (c := .acquire)).mpr ⟨h.invariant, fun a t hstep => ?_⟩) ?_
  · obtain rfl := hacquire s a t hstep
    exact ⟨h.invariant, rfl⟩
  rintro _ t - rfl
  refine hpass.bind fun outcome u hu hpost => ⟨hu, fun a v hstep => ?_⟩
  obtain rfl := hrelease u a v hstep
  exact ⟨hu, hpost⟩

/-- **Passes one after the other** settle one controller after the other, and none of them unsettles
one that was settled before. -/
theorem ensures_reconcileEach (hschedule : schedule.PicksFrom cluster.machines)
    (hflat : ∀ m ∈ cluster.machines, Flat m) (hmachines : cluster.machines.Nodup)
    (h : Underway cluster.machines controllers b s.contents) (todo : List Controller)
    (hnodup : todo.Nodup) (htodo : ∀ x ∈ todo, x ∈ controllers) :
    (reconcileEach todo).Ensures (manages False (succeeds cluster schedule))
      (fun u => Underway cluster.machines controllers b u.contents)
      (fun _ u =>
        (∀ x ∈ todo, live cluster.machines u.contents x = x.desiredState.replicas.toNat) ∧
        ∀ x ∈ controllers, x ∉ todo →
          live cluster.machines u.contents x = live cluster.machines s.contents x) s := by
  induction todo generalizing s with
  | nil => exact ⟨h, (fun x hx => nomatch hx), fun _ _ _ => rfl⟩
  | cons x todo ih =>
    obtain ⟨hfresh, hnodup⟩ := List.nodup_cons.mp hnodup
    have hx : x ∈ controllers := htodo x (List.mem_cons_self ..)
    refine Ensures.bind (ensures_reconcile (fun _ _ _ h => h) (fun _ _ _ h => h)
      (ensures_settling hschedule hflat hmachines h hx)) ?_
    rintro _ u hu ⟨hsettled, hothers⟩
    refine (ih hu hnodup fun y hy => htodo y (List.mem_cons_of_mem x hy)).mono ?_
    rintro _ v - ⟨hdone, hrest⟩
    refine ⟨fun y hy => ?_, fun y hy hne => ?_⟩
    · rcases List.mem_cons.mp hy with rfl | hy
      · exact (hrest y hx hfresh).trans hsettled
      · exact hdone y hy
    · rw [List.mem_cons, not_or] at hne
      exact (hrest y hy hne.2).trans (hothers y hy hne.1)

/-- **A scan in which nothing fails settles all controllers.** -/
theorem ensures_reconcileAll (hschedule : schedule.PicksFrom cluster.machines)
    (hflat : ∀ m ∈ cluster.machines, Flat m) (hmachines : cluster.machines.Nodup)
    (h : Governed cluster.machines s.contents)
    (hapart : Apart cluster.machines (controllersOn s.contents) s.contents) :
    reconcileAll.Ensures (manages False (succeeds cluster schedule))
      (fun u => Underway cluster.machines (controllersOn s.contents) s.contents u.contents)
      (fun _ u => ∀ x ∈ controllersOn s.contents,
        live cluster.machines u.contents x = x.desiredState.replicas.toNat) s := by
  have hstart : Underway cluster.machines (controllersOn s.contents) s.contents s.contents :=
    ⟨h, .refl s.contents, hapart, fun _ _ _ _ ht _ => ht⟩
  refine Ensures.bind (ensures_onStore.mpr (ensures_controllers h.documented.lasting hstart)) ?_
  rintro r u - ⟨rfl, hr⟩
  rw [hr.resolve_right And.left]
  exact (ensures_reconcileEach hschedule hflat hmachines hstart _ h.nodup_controllersOn
    fun _ hx => hx).mono fun _ _ _ hu => hu.1

/-! ### The next scan -/

/-- Whether a call of the manager creates or deletes a task. -/
def isChange : ManagerCall → Bool
  | .replica (.create _) | .replica (.delete _) => true
  | _ => false

/-- A pass for a settled controller changes nothing, whatever fails. -/
theorem ensures_pass_idle (hlasting : s.contents.Lasting)
    (hlive : live cluster.machines s.contents x = x.desiredState.replicas.toNat) :
    (pass x).run.Ensures
      (fun c => recording isChange (manages failing (carriesOut failing cluster schedule))
        (.replica c))
      (fun u => u = (s, [])) (fun _ _ => True) (s, []) := by
  rw [pass_eq]
  refine Work.ensures_bind.mpr
    ((ensures_ask (I := replicaCalls) (c := .list x.desiredState.replicaSelector)).mpr ⟨rfl, ?_⟩)
  rintro r ⟨u, calls⟩ ⟨run, hcalls⟩
  obtain rfl : calls = [] := hcalls
  obtain ⟨rfl, rfl | ⟨-, e, rfl⟩⟩ := (ensures_listing hlasting _).post_of_reaches run
  swap
  · exact ⟨rfl, trivial⟩
  refine ⟨rfl, ?_⟩
  have hactive : (liveOf (selectedOn u.contents cluster.machines
      x.desiredState.replicaSelector)).length = wantedBy x := hlive
  simp only [adjust, hactive, Nat.sub_self, List.take_zero]
  exact ⟨rfl, trivial⟩

theorem ensures_reconcileEach_idle (hlasting : s.contents.Lasting) (todo : List Controller)
    (hlive : ∀ x ∈ todo,
      live cluster.machines s.contents x = x.desiredState.replicas.toNat) :
    (reconcileEach todo).Ensures
      (recording isChange (manages failing (carriesOut failing cluster schedule)))
      (fun u => u = (s, [])) (fun _ _ => True) (s, []) := by
  induction todo with
  | nil => exact ⟨rfl, trivial⟩
  | cons x todo ih =>
    refine Ensures.bind (ensures_reconcile (fun _ _ _ h => Prod.ext h.1 h.2)
      (fun _ _ _ h => Prod.ext h.1 h.2)
      (ensures_pass_idle hlasting (hlive x (List.mem_cons_self ..)))) ?_
    rintro _ u rfl -
    exact ih fun y hy => hlive y (List.mem_cons_of_mem x hy)

/-- Every stored controller has as many live tasks as it wants. -/
def Settled (machines : List String) (c : Contents) : Prop :=
  ∀ id x, controllerOn? c id = some x → live machines c x = x.desiredState.replicas.toNat

/-- **A scan of settled controllers changes nothing,** whatever fails. -/
theorem ensures_reconcileAll_idle (h : Governed cluster.machines s.contents)
    (hsettled : Settled cluster.machines s.contents) :
    reconcileAll.Ensures
      (recording isChange (manages failing (carriesOut failing cluster schedule)))
      (fun u => u = (s, [])) (fun _ _ => True) (s, []) := by
  have hlasting : s.contents.Lasting := h.documented.lasting
  have hlisting : (Registry.controllers.run.expand fun c =>
      ask (I := managerCalls) (.store c)).Ensures
      (manages failing (carriesOut failing cluster schedule)) (fun u => u = s)
      (Saw failing s (controllersOn s.contents)) s :=
    ensures_onStore.mpr (ensures_controllers hlasting rfl)
  have hasks : (Registry.controllers.run.expand fun c =>
      ask (I := managerCalls) (.store c)).Asks (fun c => isChange c = false) fun _ => True := by
    refine asks_expand_of_forall ?_ Registry.controllers.run
    exact fun _ _ h => ⟨rfl, h⟩
  refine Ensures.bind ((hlisting.recording hasks).mono_invariant
    fun u hu => Prod.ext hu.1 hu.2) ?_
  rintro r u rfl ⟨-, rfl | ⟨-, e, rfl⟩⟩
  · exact ensures_reconcileEach_idle hlasting _ fun x hx =>
      hsettled x.id x (h.mem_controllersOn_iff.mp hx)
  · exact ⟨rfl, trivial⟩

/-- **One scan settles all controllers.** Whatever tasks and controllers were written and removed
before, with whatever failures, and however new tasks are placed on the machines of the cluster: if
no task is selected by two of the controllers and replicas are selected by their own controller
only, then after a scan in which neither the store nor a creation or deletion fails every controller
has as many live tasks as it wants. The controllers are the same as before, no task has gone that
had ended or was selected by none, and the next scan creates and deletes nothing, even if the store
fails then. -/
theorem scan_settles (hflat : ∀ m ∈ cluster.machines, Flat m) (hmachines : cluster.machines.Nodup)
    (hschedule : schedule.PicksFrom cluster.machines)
    (hstart : Administered failing cluster.machines s)
    (hapart : Apart cluster.machines (controllersOn s.contents) s.contents)
    (run : Reaches (manages False (succeeds cluster schedule)) reconcileAll s (.done ()) t) :
    SameControllers s.contents t.contents ∧ Settled cluster.machines t.contents ∧
      Spares (controllersOn s.contents) s.contents t.contents ∧
      ∀ (failing' : Prop) (rest : Program managerCalls Unit) (u : Store)
        (calls : List ManagerCall),
        Reaches (recording isChange (manages failing' (carriesOut failing' cluster schedule)))
          reconcileAll (t, []) rest (u, calls) → u = t ∧ calls = [] := by
  have hgoverned : Governed cluster.machines s.contents := hstart.governed hflat
  have hscan := ensures_reconcileAll hschedule hflat hmachines hgoverned hapart
  have hunderway := hscan.invariant_of_reaches run
  have hsettled : Settled cluster.machines t.contents := by
    intro id x hx
    obtain rfl := hunderway.governed.id_eq hx
    refine hscan.post_of_reaches run x ?_
    rw [← mem_controllersOn_congr hgoverned hunderway.governed hunderway.same]
    exact hunderway.governed.mem_controllersOn_iff.mpr hx
  refine ⟨hunderway.same, hsettled, hunderway.spares, fun failing' rest u calls next => ?_⟩
  exact Prod.mk.inj ((ensures_reconcileAll_idle hunderway.governed hsettled).invariant_of_reaches
    next)

/-- A manager whose calls are carried out by a partner that never fails. -/
def manageReliably (cluster : Cluster) : (c : ManagerCall) → Store → c.Answer × Store
  | .store c, s => s.perform 0 c
  | .replica c, s => (controlBy cluster cluster.place c).run serveReliably s
  | .acquire, s | .release, s | .wait _, s => ((), s)
  | .receive _, s => (none, s)

/-- Whether a creation or deletion comes to its end without a failure there. -/
def comesOff (cluster : Cluster) : ManagerCall → Store → Bool
  | .replica (.create x), s => ((creation cluster cluster.place x).run.run serveReliably s).1.isOk
  | .replica (.delete id), s =>
    ((controlBy cluster cluster.place (.delete id)).run serveReliably s).1.isOk
  | _, _ => true

theorem eq_ok_of_isOk {α : Type} {r : Except Error α} (h : r.isOk = true) : ∃ a, r = .ok a := by
  cases r with
  | ok a => exact ⟨a, rfl⟩
  | error e => cases h

theorem manages_manageReliably {c : ManagerCall} (h : comesOff cluster c s = true) :
    manages False (succeeds cluster cluster.place) c s (manageReliably cluster c s).1
      (manageReliably cluster c s).2 := by
  cases c with
  | store c => exact .performed 0
  | replica c =>
    have run := Reaches.of_run serves_serveReliably (controlBy cluster cluster.place c) s
    cases c with
    | create x =>
      obtain ⟨task, htask⟩ := eq_ok_of_isOk h
      have hcreation := Reaches.of_run serves_serveReliably (creation cluster cluster.place x).run s
      rw [htask] at hcreation
      have hstate : ((controlBy cluster cluster.place (.create x)).run serveReliably s).2 =
          ((creation cluster cluster.place x).run.run serveReliably s).2 :=
        congrArg Prod.snd (run_bind (I := controlCalls) serveReliably
          (creation cluster cluster.place x).run (fun _ => done ()) s)
      exact hstate ▸ succeeds_create hcreation
    | delete id =>
      obtain ⟨_, hok⟩ := eq_ok_of_isOk h
      exact ⟨hok, run⟩
    | list selector => exact run
    | pause => exact run
  | acquire => rfl
  | release => rfl
  | wait d => rfl
  | receive w => rfl

theorem reaches_manageReliably {α : Type} (cluster : Cluster) (p : Program managerCalls α)
    (s : Store)
    (h : ((p.asked (manageReliably cluster) s).all fun x => comesOff cluster x.1 x.2) = true) :
    Reaches (manages False (succeeds cluster cluster.place)) p s
      (done (p.run (manageReliably cluster) s).1) (p.run (manageReliably cluster) s).2 :=
  .of_asked fun x hx => manages_manageReliably (List.all_eq_true.mp h x hx)

/-- What is asked of the store is done there, and nothing of it concerns replicas. -/
theorem reaches_expand_store {α : Type} (cluster : Cluster) (p : Program storeCalls α) (s : Store) :
    Reaches (manages False (succeeds cluster cluster.place))
      (p.expand fun c => ask (I := managerCalls) (.store c)) s
      (done (p.run (fun c u => u.perform 0 c) s).1) (p.run (fun c u => u.perform 0 c) s).2 := by
  induction p generalizing s with
  | done a => exact .start
  | call c next ih => exact .of_call (.performed 0) (ih _ _)

/-- A controller that wants one task with a label of its own. -/
def single (name : String) : Controller where
  id := name
  desiredState :=
    { replicas := 1
      replicaSelector := .ofList [("app", name)]
      taskTemplate := { labels := .ofList [("app", name)] } }

/-- A cluster with two machines, which take new tasks in turn. -/
def shop : Cluster := { machines := ["h1", "h2"], policy := .roundRobin }

/-- A store with two of these controllers and without tasks. -/
def shopControllers : Store :=
  [single "web", single "db"].foldl (fun s x =>
    ((Registry.setController x).run.run (fun c u => u.perform 0 c) s).2) .empty

/-- A task that one of them selects, although it was not created for it. -/
def dbTask : Task where
  id := "d"
  labels := .ofList [("app", "db")]

/-- The store with this task on one of the machines. -/
def shopStore : Store :=
  ((createTask shop.machines "h2" dbTask).run.run (fun c u => u.perform 0 c) shopControllers).2

theorem flat_shop : ∀ m ∈ shop.machines, Flat m := by decide

theorem administered_shopControllers : Administered False shop.machines shopControllers := by
  have hweb : (Request.setController (single "web")).Fits := ⟨by decide, by decide⟩
  have hdb : (Request.setController (single "db")).Fits := ⟨by decide, by decide⟩
  exact .request (.request .empty hweb (.of_run (fun _ _ => .performed 0) _ _)) hdb
    (.of_run (fun _ _ => .performed 0) _ _)

theorem taskOn?_shopControllers (m id : String) :
    taskOn? shopControllers.contents m id = none := by
  obtain ⟨b, hb, hweb⟩ : ∃ b : Contents, b.Wrote shopControllers.contents (Keys.controller "db")
      (single "db").encode ∧
      ({} : Contents).Wrote b (Keys.controller "web") (single "web").encode :=
    ⟨_, Contents.wrote_put _ 0 .set _ _, Contents.wrote_put {} 0 .set _ _⟩
  rw [taskOn?, hb.kept?, if_neg Keys.task_ne_controller, hweb.kept?,
    if_neg Keys.task_ne_controller]
  rfl

theorem reaches_shopStore :
    Reaches (Store.serves False) (createTask shop.machines "h2" dbTask).run shopControllers
      (.done (.ok ())) shopStore := by
  have run : Reaches (Store.serves False) _ _ (.done _) shopStore :=
    .of_run (fun _ _ => .performed 0) (createTask shop.machines "h2" dbTask).run shopControllers
  have hok : ((createTask shop.machines "h2" dbTask).run.run (fun c u => u.perform 0 c)
      shopControllers).1 = .ok () := by decide +kernel
  rwa [hok] at run

/-- The task of the store is the only one. -/
theorem setsTask_shopStore :
    SetsTask "h2" "d" (some (dbTask.boundTo "h2")) shopControllers.contents shopStore.contents := by
  have hgoverned := administered_shopControllers.governed flat_shop
  have hflat : Flat "h2" := by decide
  exact ((hgoverned.ensures_createTask flat_shop hflat ⟨by decide, by decide⟩).post_of_reaches
    reaches_shopStore rfl).2.1

theorem administered_shopStore : Administered False shop.machines shopStore := by
  have hbinding : (Request.task (.create "h2" dbTask)).Fits := ⟨by decide, by decide, by decide⟩
  exact .request administered_shopControllers hbinding reaches_shopStore

theorem controllersOn_shopStore :
    controllersOn shopStore.contents = [single "db", single "web"] := by
  have hnodes : (shopStore.contents.nodes fun key => isUnder controllersDir key false) =
      [⟨"/registry/controllers/db", (single "db").encode, 2⟩,
        ⟨"/registry/controllers/web", (single "web").encode, 1⟩] := by decide +kernel
  rw [controllersOn, documentsIn, hnodes]
  simp [Controller.read_encode]

/-- The tasks on the machines: none on the one, and that of the store on the other. -/
theorem tasksOn_shopStore :
    shop.machines.map (tasksOn shopStore.contents) =
      [[], [(dbTask.boundTo "h2").observedOn "h2"]] := by
  have hnodes : shop.machines.map (fun m => shopStore.contents.nodes fun key =>
      isUnder (tasksDir m) key false) =
      [[], [⟨"/registry/hosts/h2/tasks/d", (dbTask.boundTo "h2").encode, 3⟩]] := by decide +kernel
  simp only [shop, List.map_cons, List.map_nil, List.cons.injEq, and_true] at hnodes
  simp [shop, tasksOn, documentsIn, hnodes, Task.read_encode]

theorem live_shopStore :
    live shop.machines shopStore.contents (single "db") = 1 ∧
      live shop.machines shopStore.contents (single "web") = 0 := by
  simp only [live, active, selectedOn, tasksOn_shopStore]
  decide +kernel

theorem apart_shopStore :
    Apart shop.machines (controllersOn shopStore.contents) shopStore.contents := by
  rw [controllersOn_shopStore]
  refine ⟨fun m hm id t ht => ?_, by decide +kernel⟩
  rw [setsTask_shopStore m id (flat_shop m hm), taskOn?_shopControllers] at ht
  split at ht
  · obtain rfl := Option.some.inj ht
    decide +kernel
  · cases ht

theorem reaches_shop :
    ∃ t, Reaches (manages False (succeeds shop shop.place)) reconcileAll shopStore
      (.done ()) t := by
  have hlasting : shopStore.contents.Lasting :=
    (administered_shopStore.governed flat_shop).documented.lasting
  have hlisting : (Registry.controllers.run.expand fun c =>
      ask (I := managerCalls) (.store c)).Ensures
      (manages False (succeeds shop shop.place)) (fun _ => True)
      (Saw False shopStore (controllersOn shopStore.contents)) shopStore :=
    ensures_onStore.mpr (ensures_controllers hlasting trivial)
  have hlisted := reaches_expand_store shop Registry.controllers.run shopStore
  obtain ⟨hstore, hcontrollers⟩ := hlisting.post_of_reaches hlisted
  rw [hstore, hcontrollers.resolve_right And.left, controllersOn_shopStore] at hlisted
  obtain ⟨⟨⟩, t, hpasses⟩ : ∃ u t, Reaches (manages False (succeeds shop shop.place))
      (reconcileEach [single "db", single "web"]) shopStore (.done u) t :=
    ⟨_, _, reaches_manageReliably shop _ shopStore (by decide +kernel)⟩
  exact ⟨t, hlisted.bind.trans hpasses⟩

/-- One of the two controllers has its task, and the scan brings the other one its own. It counts
for that controller only, so both have what they want at once, and the next scan leaves it at that.
-/
theorem scan_settles_shop :
    shop.machines.Nodup ∧ shop.place.PicksFrom shop.machines ∧
      Administered False shop.machines shopStore ∧
      controllersOn shopStore.contents = [single "db", single "web"] ∧
      Apart shop.machines (controllersOn shopStore.contents) shopStore.contents ∧
      live shop.machines shopStore.contents (single "db") = 1 ∧
      live shop.machines shopStore.contents (single "web") = 0 ∧
    ∃ t, Reaches (manages False (succeeds shop shop.place)) reconcileAll shopStore (.done ()) t ∧
      live shop.machines t.contents (single "db") = 1 ∧
      live shop.machines t.contents (single "web") = 1 ∧
      ∀ (failing' : Prop) (rest : Program managerCalls Unit) (u : Store)
        (calls : List ManagerCall),
        Reaches (recording isChange (manages failing' (carriesOut failing' shop shop.place)))
          reconcileAll (t, []) rest (u, calls) → u = t ∧ calls = [] := by
  obtain ⟨t, run⟩ := reaches_shop
  obtain ⟨hsame, hsettled, -, hnext⟩ := scan_settles flat_shop (by decide) shop.picksFrom_place
    administered_shopStore apart_shopStore run
  have hlive : ∀ x ∈ [single "db", single "web"],
      live shop.machines t.contents x = x.desiredState.replicas.toNat := by
    intro x hx
    rw [← controllersOn_shopStore] at hx
    have hgoverned := administered_shopStore.governed flat_shop
    refine hsettled x.id x ?_
    rw [controllerOn?, hsame x.id]
    exact hgoverned.mem_controllersOn_iff.mp hx
  refine ⟨by decide, shop.picksFrom_place, administered_shopStore, controllersOn_shopStore,
    apart_shopStore, live_shopStore.1, live_shopStore.2, t, run, ?_, ?_, hnext⟩
  · exact hlive _ (List.mem_cons_self ..)
  · exact hlive _ (List.mem_cons_of_mem _ (List.mem_cons_self ..))

end ControlPlane.Replication
