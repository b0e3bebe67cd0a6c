import ControlPlane.Proofs.Node.Convergence
import ControlPlane.Proofs.Registry.Consistency
import ControlPlane.Proofs.Registry.Listing

/-!
# Hosts run the tasks that are bound to them

Between a task that is bound to a host and the containers that run there lie two documents. Binding
writes the task and appends its manifest to the list of the host; the agent of the host reads the
list and makes a pass for it. Neither looks at what the other reads, so that they agree is a theorem
about all of them together: after a session without failures the list of a host, read from the
store, asks for the same pairs as its tasks, and a pass on an engine that works leaves exactly one
container for each of these.

A host that tasks are never bound to has no documents at all, and a pass clears it.

## Main definitions

* `refresh`: an agent reads its list and makes a pass
* `dueOn`: the pairs that tasks stand for
* `ServedBy`: the store calls of an agent are answered by a store

## Main results

* `Ensures.onStore`: what is ensured of work on a store is ensured where an agent does it
* `wanted_iff_due`: a list asks for what the tasks stand for
* `refresh_runs_bound`
-/

namespace ControlPlane.Node

open Contents ControlPlane.Path Program Registry

/-- An agent reads the manifest list of its host and makes a pass for it. -/
def refresh (s : NodeSettings) : NodeWork Unit := do
  let manifests ← onStore (Registry.manifests s.hostname)
  pass s manifests

/-- The pairs that tasks stand for: each task with each of the containers of its manifest. -/
def dueOn (tasks : List Task) : List Identity :=
  tasks.flatMap fun t => t.desiredState.manifest.containers.map fun c => ⟨t.id, c.name⟩

theorem mem_dueOn_iff {tasks : List Task} {p : Identity} :
    p ∈ dueOn tasks ↔
      ∃ t ∈ tasks, ∃ c ∈ t.desiredState.manifest.containers, ⟨t.id, c.name⟩ = p := by
  simp [dueOn]

theorem mem_wanted_pair_iff {manifests : List Manifest} {p : Identity} :
    p ∈ (wanted manifests).map pair ↔ ∃ x ∈ manifests, ∃ c ∈ x.containers, ⟨x.id, c.name⟩ = p := by
  rw [wanted, List.map_flatMap]
  simp [pair]

/-! ### Documents of a host -/

section

variable {failing : Prop} {machines : List String} {host machine : String} {c d : Contents}
  {s : Store}

/-- A host without documents. It is where sessions begin whose tasks shall be all that the host has
to run. -/
structure Vacant (c : Contents) (host : String) : Prop where
  manifests : c.kept? (Keys.manifests host) = none
  tasks : ∀ id, c.kept? (Keys.task host id) = none

theorem Vacant.elsewhere (h : Vacant c host) (hhost : Flat host) (hne : host ≠ machine)
    (hsame : SameElsewhere machine c d) : Vacant d host where
  manifests := (hsame host hhost hne).1.trans h.manifests
  tasks id := ((hsame host hhost hne).2 id).trans (h.tasks id)

/-- Operations on other machines leave a host without documents. -/
theorem Vacant.ensures_work {op : Operation} (h : Vacant s.contents host)
    (hdocumented : Documented machines s.contents) (hflat : ∀ m ∈ machines, Flat m)
    (hhost : Flat host) (hnot : host ∉ machines) (hop : Legible machines op) :
    (op.work machines).run.Ensures (Store.serves failing)
      (fun u => Documented machines u.contents ∧ Vacant u.contents host) (fun _ _ => True) s := by
  have hne : ∀ m ∈ machines, host ≠ m := fun m hm heq => hnot (heq ▸ hm)
  cases op with
  | create machine t =>
    obtain ⟨hmachine, hid, -⟩ := hop
    have hname := hflat machine hmachine
    refine ensures_createTask hdocumented.filed hflat ⟨hdocumented, h⟩ (fun _ => trivial)
      fun u list hfree _ hw => ?_
    have hdocumented' := hdocumented.wrote_task (t := t.boundTo machine) hflat hname hid
      (fun m hm => hfree m (List.mem_cons_of_mem _ hm)) hw
    have hu := h.elsewhere hhost (hne machine hmachine) (sameElsewhere_of_task hname hw.frame)
    refine ⟨⟨hdocumented', hu⟩, fun _ _ => trivial, fun v hv => ⟨⟨?_, ?_⟩, trivial⟩⟩
    · exact hdocumented'.wrote_manifests hflat hname hv
    · exact hu.elsewhere hhost (hne machine hmachine) (sameElsewhere_of_manifests hname hv.frame)
  | delete id =>
    refine ensures_deleteTask hdocumented hflat ⟨hdocumented, h⟩ (fun _ => trivial)
      fun machine hmachine u list _ _ hw => ?_
    have hname := hflat machine hmachine
    have hdocumented' := hdocumented.wrote_manifests hflat hname hw
    have hu := h.elsewhere hhost (hne machine hmachine) (sameElsewhere_of_manifests hname hw.frame)
    refine ⟨⟨hdocumented', hu⟩, fun _ _ => trivial, fun v hv => ⟨⟨?_, ?_⟩, trivial⟩⟩
    · exact hdocumented'.dropped_task hv
    · exact hu.elsewhere hhost (hne machine hmachine) (sameElsewhere_of_task hname hv.frame)

/-- **A host that is not one of the machines has no documents.** -/
theorem vacant_of_session (h : Session failing machines (Legible machines) s)
    (hflat : ∀ m ∈ machines, Flat m) (hhost : Flat host) (hnot : host ∉ machines) :
    Vacant s.contents host :=
  (h.induction (fun u => Documented machines u.contents ∧ Vacant u.contents host) (fun _ => True)
    ⟨documented_empty machines, rfl, fun _ => rfl⟩ trivial
    fun _ _ hu hop _ => hu.2.ensures_work hu.1 hflat hhost hnot hop).1.2

/-- A list of a machine asks for what the tasks of the machine stand for. -/
theorem wanted_iff_due_of_listed {list : List Manifest} (hdocumented : Documented machines c)
    (hhost : Flat host) (hlist : Listed c host list)
    (hfull : ∀ id, (c.kept? (Keys.task host id)).isSome = true → ∃ x ∈ list, x.id = id)
    (p : Identity) : p ∈ (wanted list).map pair ↔ p ∈ dueOn (tasksOn c host) := by
  rw [mem_wanted_pair_iff, mem_dueOn_iff]
  constructor
  · rintro ⟨x, hx, container, hcontainer, rfl⟩
    obtain ⟨t, ht, rfl⟩ := hlist.bound x hx
    exact ⟨t.observedOn host, (hdocumented.mem_tasksOn_iff hhost).mpr ⟨t, ht, rfl⟩, container,
      hcontainer, rfl⟩
  · rintro ⟨_, hmem, container, hcontainer, rfl⟩
    obtain ⟨t, ht, rfl⟩ := (hdocumented.mem_tasksOn_iff hhost).mp hmem
    obtain ⟨x, hx, hid⟩ := hfull t.id (isSome_kept?_of_taskOn? ht)
    obtain ⟨t', ht', rfl⟩ := hlist.bound x hx
    -- the manifest is that of the task whose document has this id
    obtain rfl : t' = t := by
      rw [hid] at ht'
      exact Option.some.inj (ht'.symm.trans ht)
    exact ⟨boundManifest t', hx, container, hcontainer, rfl⟩

/-- **What a host is told is what is bound to it.** After a session without failures the list of
every host can be read, and it asks for what the tasks of the host stand for. -/
theorem wanted_iff_due (h : Session False machines (Legible machines) s)
    (hflat : ∀ m ∈ machines, Flat m) (hhost : Flat host) :
    ∃ list, manifestsOn s.contents host = .ok list ∧
      ∀ p, p ∈ (wanted list).map pair ↔ p ∈ dueOn (tasksOn s.contents host) := by
  obtain ⟨hsound, hfull⟩ := h.sound hflat
  by_cases hmem : host ∈ machines
  · obtain ⟨list, hlist⟩ := hsound.listed host hmem
    exact ⟨list, hlist.read, wanted_iff_due_of_listed hsound.documented hhost hlist
      (hfull not_false host hmem list hlist.read)⟩
  · have hvacant := vacant_of_session h hflat hhost hmem
    refine ⟨[], by rw [manifestsOn, hvacant.manifests], fun p => ?_⟩
    have hnone : tasksOn s.contents host = [] := by
      refine List.eq_nil_iff_forall_not_mem.mpr fun t ht => ?_
      obtain ⟨t', ht', -⟩ := (hsound.documented.mem_tasksOn_iff hhost).mp ht
      rw [taskOn?, hvacant.tasks] at ht'
      cases ht'
    rw [hnone]
    exact Iff.rfl

end

/-! ### Reading the list -/

section

variable {σ : Type} {handle : (c : NodeCall) → σ → c.Answer × σ} {v : EngineView σ}
  {good : σ → Prop} {store : σ → Store} {running : List Engine.Summary}
  {launched : List Engine.Call} {x : σ × List NodeCall}

/-- The store calls of an agent are answered by a store, at whatever moment they are made. -/
def ServedBy (handle : (c : NodeCall) → σ → c.Answer × σ) (store : σ → Store) : Prop :=
  ∀ c e, ∃ now, (handle (.store c) e).1 = ((store e).perform now c).1 ∧
    store (handle (.store c) e).2 = ((store e).perform now c).2

/-- **What is ensured of work on a store is ensured where an agent does it,** and the engine is left
alone. -/
theorem Ensures.onStore {α : Type} {w : StoreWork α} {inv : Store → Prop}
    {post : Except Error α → Store → Prop} (works : Works handle v good)
    (hstore : ServedBy handle store) (hx : good x.1) (hstands : Stands v running launched x)
    (h : w.run.Ensures (Store.serves False) inv post (store x.1)) :
    (onStore w).run.Ensures (passSteps handle v) (goodState good)
      (fun r y => Stands v running launched y ∧ post r (store y.1)) x := by
  change (w.run.expand _).Ensures _ _ _ _
  generalize w.run = p at h ⊢
  induction p generalizing x with
  | done r => exact ⟨hx, hstands, h.2⟩
  | call c next ih =>
    refine Ensures.bind (m := fun a y => Stands v running launched y ∧
      (next a).Ensures (Store.serves False) inv post (store y.1))
      (ensures_call_node works hx (.store c) fun _ => ⟨⟨?_, ?_⟩, ?_⟩) ?_
    · exact (works.frame hx rfl).trans hstands.1
    · rw [launches_append, hstands.2]
      exact List.append_nil launched
    · obtain ⟨now, hanswer, hleft⟩ := hstore c x.1
      refine h.2 _ _ ?_
      rw [hanswer, hleft]
      exact .performed now
    · exact fun a y hy hnext => ih a hy hnext.1 hnext.2

/-- Reading the list and making a pass for it, against every engine that works. -/
theorem ensures_refresh {list : List Manifest} (works : Works handle v good)
    (hstore : ServedBy handle store) (hx : good x.1) (hstands : Stands v running launched x)
    (s : NodeSettings) (hlasting : (store x.1).contents.Lasting)
    (hlist : manifestsOn (store x.1).contents s.hostname = .ok list) :
    (refresh s).run.Ensures (passSteps handle v) (goodState good)
      (fun r y => r = .ok () ∧
        ((v.running y.1).map served).Perm ((wanted list).map pair).dedup) x := by
  have hread : (Registry.manifests s.hostname).run.Ensures (Store.serves False) (fun _ => True)
      (fun r _ => r = .ok list) (store x.1) := by
    refine (ensures_manifests hlasting trivial s.hostname).mono ?_
    rintro r _ - ⟨-, hr | ⟨hfalse, -⟩⟩
    · exact hr.trans hlist
    · exact hfalse.elim
  refine Work.Ensures.bind (Ensures.onStore works hstore hx hstands hread) ?_ ?_
  · rintro list' y hy ⟨hstands', hlist'⟩
    obtain rfl : list' = list := Except.ok.inj hlist'
    refine (ensures_pass works hy hstands' s list').mono ?_
    rintro r z - ⟨rfl, running', calls, names, hstands'', hclaimed, hnamed, hdistinct⟩
    refine ⟨rfl, ?_⟩
    rw [hstands''.1]
    exact hclaimed.served_kept_perm hnamed hdistinct
  · rintro err y - ⟨-, herr⟩
    cases herr

/-- **Hosts run exactly the tasks that are bound to them.** Let a store be what a session of
bindings and unbindings without failures has left. Whatever containers run on a host, after its
agent has read its list and made a pass on an engine that works, the running containers stand one to
one for the distinct pairs of a task that is listed on the host and a container of its manifest. -/
theorem refresh_runs_bound (works : Works handle v good) (hstore : ServedBy handle store)
    {machines : List String} (hflat : ∀ m ∈ machines, Flat m) (s : NodeSettings)
    (hhost : Flat s.hostname) {e : σ} (he : good e)
    (hsession : Session False machines (Legible machines) (store e))
    (hfree : ∀ x ∈ (refresh s).run.asked handle e, Accepts v x.1 x.2) (now : Moment) :
    let outcome := (refresh s).run.run handle e
    let listed := (Registry.machineTasks s.hostname).run.run (fun c u => u.perform now c) (store e)
    outcome.1 = .ok () ∧ ∃ tasks, listed.1 = .ok tasks ∧
      ((v.running outcome.2).map served).Perm (dueOn tasks).dedup := by
  have hlasting := ((hsession.sound hflat).1).documented.lasting
  obtain ⟨list, hlist, hpairs⟩ := wanted_iff_due hsession hflat hhost
  have hstands : Stands v (v.running e) [] ((e, []) : σ × List NodeCall) := ⟨rfl, rfl⟩
  obtain ⟨hok, hperm⟩ :=
    (ensures_refresh works hstore he hstands s hlasting hlist).of_run hfree
  have hlisting : (machineTasks s.hostname).run.Ensures (Store.serves False) (fun _ => True)
      (StoreWork.Saw False (store e) (tasksOn (store e).contents s.hostname)) (store e) :=
    ensures_machineTasks hlasting trivial s.hostname
  intro outcome listed
  refine ⟨hok, tasksOn (store e).contents s.hostname, ?_, hperm.trans ?_⟩
  · obtain ⟨-, hlisted | ⟨hfalse, -⟩⟩ :=
      hlisting.post_of_reaches (.of_run (fun _ _ => .performed now) _ _)
    · exact hlisted
    · exact hfalse.elim
  · refine (List.perm_ext_iff_of_nodup (List.nodup_dedup _) (List.nodup_dedup _)).mpr fun p => ?_
    rw [List.mem_dedup, List.mem_dedup]
    exact hpairs p

end

/-- A task with one container, which needs nothing of its host. -/
def webTask : Task :=
  { id := "web", desiredState.manifest.containers := [{ name := "nginx", image := "nginx" }] }

/-- A store on which this task is bound to a host. -/
def boundStore : Store :=
  ((createTask ["h1"] "h1" webTask).run.run (fun c u => u.perform 0 c) .empty).2

theorem session_boundStore : Session False ["h1"] (Legible ["h1"]) boundStore := by
  have hclean : (boundManifest webTask).All Yaml.Clean := by
    refine ⟨by decide, fun c hc => ?_⟩
    obtain rfl := List.mem_singleton.mp hc
    constructor <;> decide
  have hlegible : Legible ["h1"] (.create "h1" webTask) :=
    ⟨by decide, ⟨by decide, by decide⟩, hclean⟩
  exact .operation .empty hlegible (.of_run (fun _ _ => .performed 0) _ _)

/-- The busy bench with this store, so that the containers which run there are those of others. -/
def boundBench : Bench := { busyBench with store := boundStore }

theorem refresh_runs_bound_webTask :
    let outcome := (refresh { hostname := "h1" }).run.run Bench.handle boundBench
    let listed := (Registry.machineTasks "h1").run.run (fun c u => u.perform 0 c) boundStore
    outcome.1 = .ok () ∧
      (Bench.view.running outcome.2).map Engine.Summary.name = ["/nginx--web--1"] ∧
      ∃ tasks, listed.1 = .ok tasks ∧
        ((Bench.view.running outcome.2).map served).Perm (dueOn tasks).dedup := by
  have hfree : ∀ x ∈ (refresh { hostname := "h1" }).run.asked Bench.handle boundBench,
      Accepts Bench.view x.1 x.2 := by decide +kernel
  have hstore : ServedBy Bench.handle Bench.store := fun _ _ => ⟨0, rfl, rfl⟩
  have hflat : ∀ m ∈ ["h1"], Flat m := by decide
  have horderly : boundBench.engine.Orderly := busyBench_orderly
  obtain ⟨hok, hbound⟩ := refresh_runs_bound works_bench hstore hflat { hostname := "h1" }
    (by decide) horderly session_boundStore hfree 0
  exact ⟨hok, by decide +kernel, hbound⟩

end ControlPlane.Node
