import ControlPlane.Proofs.Placement
import ControlPlane.Proofs.Registry.Binding
import ControlPlane.Proofs.Registry.Unbinding
import ControlPlane.Proofs.Store.Passing

/-!
# What a creation does

A task is created by choosing a machine and binding the task to it. The rules for bindings elsewhere
ask for documents that are in order. Here nothing is asked of the store: documents may be there that
cannot be read, and entries may come to their end between any two calls. The effect is the same. If
the creation succeeds, two keys have been written, and everything that is still there is as it was.

Which documents count is a question of the moment. Looking for a task goes from machine to machine
while time passes, and comes to what one would find if everything was looked up at its last moment:
what was over before stays over. So one moment is named at which no machine had a document of the
task and at which the manifest list was what it is taken for. If no time passes, that is the
beginning.

## Main definitions

* `Registry.locatedAt`, `Registry.manifestsAt`: what documents say at a moment
* `Registry.Created`: what a binding leaves that succeeds
* `Cluster.passes`: the answers to work on the cluster as time passes
* `Cluster.bindTo`: what follows the choice of a machine

## Main results

* `Registry.ensures_locate?_passing`: looking for a task while time passes
* `Registry.ensures_createTask_passing`: binding one
* `Cluster.createTaskBy_effect`
-/

namespace ControlPlane

namespace Registry

open Contents ControlPlane.Path Keys Store StoreWork

/-- The first machine that has a document of the task at a moment, with the task; an error if the
document cannot be read. -/
def locatedAt (c : Contents) (now : Moment) (id : String) :
    List String → Except Error (Option (String × Task))
  | [] => .ok none
  | m :: machines =>
    match c.living? now (Keys.task m id) with
    | some e =>
      match (Json.ofText? e.value).bind Task.read with
      | some t => .ok (some (m, t.observedOn m))
      | none => .error (.malformed ("task " ++ id))
    | none => locatedAt c now id machines

/-- The manifest list of a machine at a moment. -/
def manifestsAt (c : Contents) (now : Moment) (machine : String) : Except Error (List Manifest) :=
  match c.living? now (Keys.manifests machine) with
  | some e => Manifest.decodeList e.value
  | none => .ok []

variable {c : Contents} {now : Moment} {id machine m : String} {machines : List String}
  {x y z : Store × Moment} {t : Task}

/-! ### Reading as time passes -/

theorem locatedAt_cons_of_eq_none (h : c.living? now (Keys.task m id) = none) :
    locatedAt c now id (m :: machines) = locatedAt c now id machines := by
  rw [locatedAt, h]

theorem locatedAt_cons_of_read {e : Entry} (he : c.living? now (Keys.task m id) = some e)
    (ht : (Json.ofText? e.value).bind Task.read = some t) :
    locatedAt c now id (m :: machines) = .ok (some (m, t.observedOn m)) := by
  rw [locatedAt, he]
  dsimp only
  rw [ht]

theorem locatedAt_cons_of_unread {e : Entry} (he : c.living? now (Keys.task m id) = some e)
    (ht : (Json.ofText? e.value).bind Task.read = none) :
    locatedAt c now id (m :: machines) = .error (.malformed ("task " ++ id)) := by
  rw [locatedAt, he]
  dsimp only
  rw [ht]

theorem locatedAt_eq_none_iff :
    locatedAt c now id machines = .ok none ↔
      ∀ m ∈ machines, c.living? now (Keys.task m id) = none := by
  induction machines with
  | nil => exact ⟨fun _ => nofun, fun _ => rfl⟩
  | cons m machines ih =>
    rw [List.forall_mem_cons]
    cases he : c.living? now (Keys.task m id) with
    | none =>
      rw [locatedAt_cons_of_eq_none he]
      exact ih.trans (and_iff_right rfl).symm
    | some e =>
      cases ht : (Json.ofText? e.value).bind Task.read with
      | none =>
        rw [locatedAt_cons_of_unread he ht]
        exact ⟨nofun, nofun⟩
      | some t =>
        rw [locatedAt_cons_of_read he ht]
        exact ⟨nofun, nofun⟩

/-- The first document decides. Machines behind it are not looked at. -/
theorem locatedAt_append {before after : List String} {e : Entry}
    (hbefore : ∀ m ∈ before, c.living? now (Keys.task m id) = none)
    (he : c.living? now (Keys.task m id) = some e)
    (ht : (Json.ofText? e.value).bind Task.read = some t) :
    locatedAt c now id (before ++ m :: after) = .ok (some (m, t.observedOn m)) := by
  induction before with
  | nil => exact locatedAt_cons_of_read he ht
  | cons m' before ih =>
    obtain ⟨hm', hbefore⟩ := List.forall_mem_cons.mp hbefore
    rw [List.cons_append, locatedAt_cons_of_eq_none hm', ih hbefore]

/-- What is nowhere stays so, as long as nobody writes. -/
theorem locatedAt_eq_none_of_le {later : Moment} (h : locatedAt c now id machines = .ok none)
    (hle : now ≤ later) : locatedAt c later id machines = .ok none :=
  locatedAt_eq_none_iff.mpr fun m hm =>
    living?_eq_none_of_le hle (locatedAt_eq_none_iff.mp h m hm)

/-- **Looking for a task while time passes** comes to what is found at the last moment. -/
theorem ensures_locate?_passing (hx : Passed x y) (id : String) (machines : List String) :
    (locate? id machines).run.Ensures passes (fun _ => True)
      (fun r z => Passed x z ∧ y.2 ≤ z.2 ∧ r = locatedAt x.1.contents z.2 id machines) y := by
  induction machines generalizing y with
  | nil => exact ⟨trivial, hx, Nat.le_refl _, rfl⟩
  | cons m machines ih =>
    refine Work.Ensures.bind (ensures_get_passing hx) ?_ fun e z _ hz => by cases hz.2.2
    rintro node z - ⟨hz, hle, hread⟩
    obtain rfl := Except.ok.inj hread
    cases hentry : x.1.contents.living? z.2 (Keys.task m id) with
    | none =>
      refine (ih hz).mono ?_
      rintro r w - ⟨hw, hle', rfl⟩
      refine ⟨hw, Nat.le_trans hle hle', ?_⟩
      rw [locatedAt_cons_of_eq_none (living?_eq_none_of_le hle' hentry)]
    | some e =>
      change (found m id e.value).run.Ensures _ _ _ _
      rw [found]
      cases ht : (Json.ofText? e.value).bind Task.read with
      | none => exact ⟨trivial, hz, hle, (locatedAt_cons_of_unread hentry ht).symm⟩
      | some t => exact ⟨trivial, hz, hle, (locatedAt_cons_of_read hentry ht).symm⟩

theorem ensures_manifests_passing (hx : Passed x y) (machine : String) :
    (manifests machine).run.Ensures passes (fun _ => True)
      (fun r z => Passed x z ∧ y.2 ≤ z.2 ∧ r = manifestsAt x.1.contents z.2 machine) y := by
  refine Work.Ensures.bind (ensures_get_passing hx) ?_ fun e z _ hz => by cases hz.2.2
  rintro node z - ⟨hz, hle, hread⟩
  obtain rfl := Except.ok.inj hread
  cases hentry : x.1.contents.living? z.2 (Keys.manifests machine) with
  | none => exact ⟨trivial, hz, hle, by rw [manifestsAt, hentry]⟩
  | some e => exact ⟨trivial, hz, hle, by rw [manifestsAt, hentry]; rfl⟩

/-! ### Binding as time passes -/

/-- What a binding leaves that succeeds. No machine had a document of the task when the manifest
list was read. Now there is one on the machine, which is that of the task with the machine as the
host that it is to run on; the list ends with its manifest, which has the id of the task, whatever
id it had before; and every other key is as it was. -/
structure Created (machines : List String) (machine : String) (t : Task) (x z : Store × Moment) :
    Prop where
  lists : ∃ moment list, x.2 ≤ moment ∧ moment ≤ z.2 ∧
    (∀ m ∈ machines, x.1.contents.living? moment (Keys.task m t.id) = none) ∧
    manifestsAt x.1.contents moment machine = .ok list ∧
    ∀ later, z.2 ≤ later → ∃ index, z.1.contents.living? later (Keys.manifests machine) =
      some ⟨Manifest.encodeList (list ++ [{ t.desiredState.manifest with id := t.id }]),
        index, none⟩
  document : ∀ later, z.2 ≤ later → ∃ index,
    z.1.contents.living? later (Keys.task machine t.id) =
      some ⟨Task.encode { t with desiredState := { t.desiredState with host := machine } }, index,
        none⟩
  frame : ∀ later, z.2 ≤ later → ∀ key, key ≠ Keys.task machine t.id →
    key ≠ Keys.manifests machine →
      z.1.contents.living? later key = x.1.contents.living? later key

/-- The two writes of a binding, and all that is said of a creation read off them. -/
theorem created_of_writes {w v u : Store × Moment} {list : List Manifest} (hmachine : Flat machine)
    (hw : Passed x w) (hfree : ∀ m ∈ machines, x.1.contents.living? w.2 (Keys.task m t.id) = none)
    (hlist : manifestsAt x.1.contents w.2 machine = .ok list) (hwv : w.2 ≤ v.2) (hvu : v.2 ≤ u.2)
    (hadds : ∀ later, v.2 ≤ later →
      Adds later (Keys.task machine t.id) (t.boundTo machine).encode w.1 v.1)
    (hsets : ∀ later, u.2 ≤ later → Sets later (Keys.manifests machine)
      (Manifest.encodeList (list ++ [boundManifest t])) v.1 u.1) :
    Created machines machine t x u where
  lists := by
    refine ⟨w.2, list, hw.le, Nat.le_trans hwv hvu, hfree, hlist, fun later hlater => ?_⟩
    obtain ⟨index, hset⟩ := hsets later hlater
    exact ⟨index, (hset _).trans (if_pos rfl)⟩
  document later hlater := by
    obtain ⟨_, hset⟩ := hsets later hlater
    obtain ⟨-, index, hadd⟩ := hadds later (Nat.le_trans hvu hlater)
    have hkept := (hset (Keys.task machine t.id)).trans
      (if_neg (task_ne_manifests hmachine hmachine))
    exact ⟨index, hkept.trans ((hadd _).trans (if_pos rfl))⟩
  frame later hlater key htask hmanifests := by
    obtain ⟨_, hset⟩ := hsets later hlater
    obtain ⟨-, _, hadd⟩ := hadds later (Nat.le_trans hvu hlater)
    rw [hset, if_neg hmanifests, hadd, if_neg htask]
    exact hw.unchanged later (Nat.le_trans hwv (Nat.le_trans hvu hlater)) key

/-- What a binding comes to. If it fails, nothing is changed; and where a task of the id can be
found on a machine in the end, it has failed for that reason. -/
structure Binds {α : Type} (machines : List String) (machine : String) (t : Task)
    (x : Store × Moment) (r : Except Error α) (z : Store × Moment) : Prop where
  created : ∀ a, r = .ok a → Created machines machine t x z
  refused : ∀ e, r = .error e → Passed x z
  located : ∀ m found, locatedAt x.1.contents z.2 t.id machines = .ok (some (m, found)) →
    r = .error (.taskExists t.id m)

/-- Where no task of the id can be found, a binding may fail for any reason. -/
theorem binds_error {α : Type} {e : Error} (hz : Passed x z)
    (hlocated : locatedAt x.1.contents z.2 t.id machines = .ok none) :
    Binds machines machine t x (.error e : Except Error α) z where
  created := nofun
  refused _ _ := hz
  located m found hfound := by
    rw [hlocated] at hfound
    cases hfound

/-- **Binding a task while time passes.** The store is looked at several times before it is written,
and what expires in between makes no difference to the outcome. -/
theorem ensures_createTask_passing (hx : Passed x y) (hmachine : Flat machine) :
    (createTask machines machine t).run.Ensures passes (fun _ => True)
      (fun r z => Binds machines machine t x r z) y := by
  refine Work.Ensures.bind (ensures_locate?_passing hx t.id machines) ?_ ?_
  · rintro (_ | ⟨existing, found⟩) z - ⟨hz, -, hlocated⟩
    · -- from now on the task is nowhere, so only the writes can fail
      have hnowhere : ∀ w : Store × Moment, z.2 ≤ w.2 →
          locatedAt x.1.contents w.2 t.id machines = .ok none :=
        fun w hle => locatedAt_eq_none_of_le hlocated.symm hle
      refine Work.Ensures.bind (ensures_manifests_passing hz machine) ?_
        fun e w _ hw => binds_error hw.1 (hnowhere w hw.2.1)
      rintro list w - ⟨hw, hle, hlist⟩
      refine Work.ensures_bind.mpr ((Program.ensures_ask (I := storeCalls)
        (c := StoreCall.create _ _ none)).mpr ⟨trivial, ?_⟩)
      rintro (e | node) v hcreate
      · exact ⟨trivial, binds_error (hw.trans hcreate.passed_of_error)
          (hnowhere v (Nat.le_trans hle hcreate.le))⟩
      refine ⟨trivial, Work.ensures_bind.mpr ((Program.ensures_ask (I := storeCalls)
        (c := StoreCall.set _ _ none)).mpr ⟨trivial, ?_⟩)⟩
      rintro r u hset
      obtain ⟨⟨node', rfl⟩, hsets⟩ := hset.sets
      have hcreated : Created machines machine t x u :=
        created_of_writes hmachine hw (locatedAt_eq_none_iff.mp (hnowhere w hle)) hlist.symm
          hcreate.le hset.le (fun _ hlater => hcreate.adds hlater) hsets
      refine ⟨trivial, trivial, fun _ _ => hcreated, nofun, fun m found hfound => ?_⟩
      rw [hnowhere u (Nat.le_trans hle (Nat.le_trans hcreate.le hset.le))] at hfound
      cases hfound
    · refine ⟨trivial, nofun, fun _ _ => hz, fun m found' hfound => ?_⟩
      rw [← hlocated] at hfound
      cases hfound
      rfl
  · rintro e z - ⟨hz, -, hlocated⟩
    refine ⟨nofun, fun _ _ => hz, fun m found hfound => ?_⟩
    rw [← hlocated] at hfound
    cases hfound

/-! ### Finding what was created -/

/-- Asking for a task on any store. -/
theorem answer_task_eq (s : Store) (now : Moment) (machines : List String) (id : String) :
    answer now (task machines id) s =
      (locatedAt s.contents now id machines).bind fun found? =>
        found?.elim (.error (.taskNotFound id)) fun found => .ok found.2 := by
  have hlocate : (task machines id).run.Ensures passes (fun _ => True)
      (fun r z => z.2 = now → r = (locatedAt s.contents now id machines).bind fun found? =>
        found?.elim (.error (.taskNotFound id)) fun found => .ok found.2) (s, now) := by
    refine Work.ensures_map.mpr (Work.Ensures.bind
      (ensures_locate?_passing (Passed.refl (s, now)) id machines) ?_ ?_)
    · rintro (_ | found) z - ⟨-, -, hlocated⟩
      · refine ⟨trivial, fun hz => ?_⟩
        rw [hz] at hlocated
        rw [← hlocated]
        rfl
      · refine ⟨trivial, fun hz => ?_⟩
        rw [hz] at hlocated
        rw [← hlocated]
        rfl
    · rintro e z - ⟨-, -, hlocated⟩ hz
      rw [hz] at hlocated
      rw [← hlocated]
      rfl
  exact hlocate.post_of_reaches (reaches_at now _ s) rfl

/-- A task is located on the only machine that has a document of it. -/
theorem locatedAt_of_only {e : Entry} (hm : machine ∈ machines)
    (hothers : ∀ m ∈ machines, m ≠ machine → c.living? now (Keys.task m id) = none)
    (he : c.living? now (Keys.task machine id) = some e)
    (ht : (Json.ofText? e.value).bind Task.read = some t) :
    locatedAt c now id machines = .ok (some (machine, t.observedOn machine)) := by
  induction machines with
  | nil => cases hm
  | cons m machines ih =>
    obtain ⟨hfirst, hrest⟩ := List.forall_mem_cons.mp hothers
    by_cases heq : m = machine
    · subst heq
      exact locatedAt_cons_of_read he ht
    · rw [locatedAt_cons_of_eq_none (hfirst heq)]
      exact ih ((List.mem_cons.mp hm).resolve_left (Ne.symm heq)) hrest

/-- **What was created is found,** as long as nobody else writes. -/
theorem Created.answer_task (h : Created machines machine t x z)
    (hflat : ∀ m ∈ machines, Flat m) (hm : machine ∈ machines) {later : Moment}
    (hlater : z.2 ≤ later) :
    answer later (task machines t.id) z.1 = .ok ((t.boundTo machine).observedOn machine) := by
  obtain ⟨moment, -, -, hmoment, hfree, -⟩ := h.lists
  obtain ⟨index, hdocument⟩ := h.document later hlater
  have hlocated : locatedAt z.1.contents later t.id machines =
      .ok (some (machine, (t.boundTo machine).observedOn machine)) := by
    refine locatedAt_of_only hm (fun m hm' hne => ?_) hdocument (Task.read_encode _)
    have hother : Keys.task m t.id ≠ Keys.task machine t.id :=
      fun heq => hne ((task_inj (hflat m hm') (hflat machine hm)).mp heq).1
    rw [h.frame later hlater _ hother (task_ne_manifests (hflat m hm') (hflat machine hm))]
    exact living?_eq_none_of_le (Nat.le_trans hmoment hlater) (hfree m hm')
  rw [answer_task_eq, hlocated]
  rfl

end Registry

namespace Cluster

open ControlPlane.Path Registry Store

/-- The answers to calls on the cluster, on a store on which time passes: a turn and a random number
may be anything. -/
def passes : clusterCalls.Steps (Store × Moment)
  | .store c, x, a, y => Passes c x a y
  | .turn, x, _, y => y = x
  | .pick _, x, _, y => y = x

/-- Binds a task to the machine that was chosen for it, and gives it back as it is stored. This is
all that a creation still has to do once its scheduler has answered. -/
def bindTo (cluster : Cluster) (machine : String) (t : Task) : ClusterWork Task := do
  .ofStore (Registry.createTask cluster.machines machine t)
  return { t with desiredState := { t.desiredState with host := machine } }

variable {cluster : Cluster} {schedule : Scheduler} {machine : String} {t : Task}
  {x y z : Store × Moment}

/-- Work that only uses the store is the same on the cluster. -/
theorem ensures_ofStore_passing {α : Type} {inv : Store × Moment → Prop}
    {post : Except Error α → Store × Moment → Prop} {w : StoreWork α} :
    (ClusterWork.ofStore w).run.Ensures passes inv post x ↔
      w.run.Ensures Store.passes inv post x :=
  Program.ensures_expand fun _ _ _ _ => Program.ensures_ask

/-- Choosing only reads. -/
theorem ensures_schedule_passing (h : schedule.PicksFrom cluster.machines) (x : Store × Moment)
    (t : Task) :
    (schedule t).run.Ensures passes (Passed x)
      (fun r _ => ∀ m, r = .ok m → m ∈ cluster.machines) x := by
  refine (h t).ensures_kept (Passed.refl x) fun c y a z hread hstep hy => ?_
  cases c with
  | store c =>
    have hstep : Passes c y a z := hstep
    exact hy.trans (hstep.passed_of_isRead hread)
  | turn =>
    obtain rfl : z = y := hstep
    exact hy
  | pick bound =>
    obtain rfl : z = y := hstep
    exact hy

theorem ensures_bindTo_passing (hx : Passed x y) (hmachine : Flat machine) :
    (cluster.bindTo machine t).run.Ensures passes (fun _ => True)
      (fun r z => (∀ created, r = .ok created → created = t.boundTo machine) ∧
        Binds cluster.machines machine t x r z) y := by
  refine Work.Ensures.bind (ensures_ofStore_passing.mpr (ensures_createTask_passing hx hmachine))
    ?_ ?_
  · rintro _ z - hz
    refine ⟨trivial, fun created hcreated => (Except.ok.inj hcreated).symm,
      fun _ _ => hz.created () rfl, nofun, fun m found hfound => ?_⟩
    cases hz.located m found hfound
  · rintro e z - hz
    refine ⟨nofun, nofun, fun _ _ => hz.refused e rfl, fun m found hfound => ?_⟩
    cases hz.located m found hfound
    rfl

/-- **The effect of creating a task.** Let the scheduler only read and name one of the machines, and
let nothing be asked of the store and of the time that passes. A creation that succeeds has bound
the task to the machine that the scheduler named: it gives the task back with that host in its
desired state, `Created` says what was there and what is left, the document can be read, and from
then on the task is found with the machine as the host that it was observed on. If instead, once the
scheduler has named a machine, the first machine with a document of the task has one that can be
read, and the document does not come to its end meanwhile, then the creation fails, tells which
machine that is, and changes nothing. -/
theorem createTaskBy_effect (cluster : Cluster) (hflat : ∀ m ∈ cluster.machines, Flat m)
    (hpicks : schedule.PicksFrom cluster.machines) (t : Task) (x : Store × Moment) :
    (∀ created z,
      Program.Reaches passes (cluster.createTaskBy schedule t).run x (.done (.ok created)) z →
      ∃ machine ∈ cluster.machines,
        (∃ y, Program.Reaches passes (schedule t).run x (.done (.ok machine)) y) ∧
        created = { t with desiredState := { t.desiredState with host := machine } } ∧
        (Json.ofText? created.encode).bind Task.read = some created ∧
        Created cluster.machines machine t x z ∧
        ∀ later, z.2 ≤ later → answer later (task cluster.machines t.id) z.1 =
          .ok { created with currentState := { created.currentState with host := machine } }) ∧
    ∀ machine y r z, Program.Reaches passes (schedule t).run x (.done (.ok machine)) y →
      Program.Reaches passes (cluster.bindTo machine t).run y (.done r) z →
      Program.Reaches passes (cluster.createTaskBy schedule t).run x (.done r) z ∧
      ∀ before m after e found, cluster.machines = before ++ m :: after →
        (∀ m' ∈ before, x.1.contents.living? z.2 (Keys.task m' t.id) = none) →
        x.1.contents.living? z.2 (Keys.task m t.id) = some e →
        (Json.ofText? e.value).bind Task.read = some found →
        r = .error (.taskExists t.id m) ∧
          ∀ key, z.1.contents.living? z.2 key = x.1.contents.living? z.2 key := by
  have hschedule := ensures_schedule_passing hpicks x t
  refine ⟨fun created z run => ?_, fun machine y r z chosen ends => ⟨?_, ?_⟩⟩
  · obtain ⟨machine | machine, y, chosen, ends⟩ := Program.Reaches.of_bind run
    · cases (Program.done.inj ends.of_done.1)
    have hm := hschedule.post_of_reaches chosen machine rfl
    obtain ⟨hbound, hbinds⟩ := (ensures_bindTo_passing (hschedule.invariant_of_reaches chosen)
      (hflat machine hm)).post_of_reaches ends
    obtain rfl := hbound created rfl
    have hcreated := hbinds.created _ rfl
    exact ⟨machine, hm, ⟨y, chosen⟩, rfl, Task.read_encode _, hcreated,
      fun later hlater => hcreated.answer_task hflat hm hlater⟩
  · exact chosen.bind.trans ends
  · intro before m after e found hmachines hbefore he hfound
    have hmachine := hflat machine (hschedule.post_of_reaches chosen machine rfl)
    obtain ⟨-, hbinds⟩ := (ensures_bindTo_passing (hschedule.invariant_of_reaches chosen)
      hmachine).post_of_reaches ends
    have hlocated : locatedAt x.1.contents z.2 t.id cluster.machines =
        .ok (some (m, found.observedOn m)) := by
      rw [hmachines]
      exact locatedAt_append hbefore he hfound
    have hr := hbinds.located m _ hlocated
    exact ⟨hr, (hbinds.refused _ hr).unchanged z.2 (Nat.le_refl _)⟩

/-- Every task goes to one machine, without a look at the store. -/
def alwaysTo (machine : String) : Scheduler := fun _ => return machine

theorem picksFrom_alwaysTo {machines : List String} (hm : machine ∈ machines) :
    (alwaysTo machine).PicksFrom machines := by
  rintro t m hpicked
  cases hpicked
  exact hm

/-- The answers to calls on the cluster that are all made at one moment. -/
def answerAt (c : ClusterCall) (x : Store × Moment) : c.Answer × (Store × Moment) :=
  match c with
  | .store c => ((x.1.perform x.2 c).1, ((x.1.perform x.2 c).2, x.2))
  | .turn => ((0 : UInt64), x)
  | .pick bound => (Fin.last bound, x)

/-- A task whose manifest has an id of its own. -/
def webTask : Task where
  id := "web"
  desiredState := { manifest := ⟨"draft", [{ name := "nginx", image := "nginx" }]⟩ }

/-- What creating this task on an empty store comes to. -/
def firstCreation : Except Error Task × (Store × Moment) :=
  (createTaskBy { machines := ["h1"] } (alwaysTo "h1") webTask).run.run answerAt (.empty, 0)

/-- The task is found afterwards, with its machine in both of its states, and cannot be created
again, however much time passes. The manifest in the list of the machine bears the id of the
task. -/
theorem createTaskBy_effect_web :
    firstCreation.1 = .ok
        { id := "web"
          desiredState :=
            { manifest := ⟨"draft", [{ name := "nginx", image := "nginx" }]⟩, host := "h1" } } ∧
      answer 0 (task ["h1"] "web") firstCreation.2.1 = .ok
        { id := "web"
          desiredState :=
            { manifest := ⟨"draft", [{ name := "nginx", image := "nginx" }]⟩, host := "h1" }
          currentState := { host := "h1" } } ∧
      answer 0 (manifests "h1") firstCreation.2.1 =
        .ok [⟨"web", [{ name := "nginx", image := "nginx" }]⟩] ∧
      ∀ r z, Program.Reaches passes
          (createTaskBy { machines := ["h1"] } (alwaysTo "h1") webTask).run
          firstCreation.2 (.done r) z →
        r = .error (.taskExists "web" "h1") := by
  have hanswers : ∀ c x, passes c x (answerAt c x).1 (answerAt c x).2 := by
    rintro (c | _ | _) x
    · exact .performed x.2 (Nat.le_refl _)
    · rfl
    · rfl
  have hfirst : Program.Reaches passes
      (createTaskBy { machines := ["h1"] } (alwaysTo "h1") webTask).run (.empty, 0)
      (.done firstCreation.1) firstCreation.2 := .of_run hanswers _ _
  have hcreated : firstCreation.1 = .ok
      { webTask with desiredState := { webTask.desiredState with host := "h1" } } ∧
        firstCreation.2.2 = 0 := by
    decide +kernel
  rw [hcreated.1] at hfirst
  have hflat : ∀ m ∈ ["h1"], Flat m := by decide
  have hpicks : (alwaysTo "h1").PicksFrom ["h1"] := picksFrom_alwaysTo (List.mem_singleton_self _)
  have hzero : ∀ moment : Moment, firstCreation.2.2 ≤ moment := fun moment => by
    rw [hcreated.2]
    exact Nat.zero_le _
  obtain ⟨machine, hmachine, -, hbound, hread, hleft, hanswer⟩ :=
    (createTaskBy_effect { machines := ["h1"] } hflat hpicks webTask (.empty, 0)).1 _ _ hfirst
  obtain rfl := List.mem_singleton.mp hmachine
  refine ⟨hcreated.1, hanswer 0 (hzero 0), by decide +kernel, fun r z again => ?_⟩
  obtain ⟨index, hdocument⟩ := hleft.document z.2 (hzero z.2)
  exact ((createTaskBy_effect { machines := ["h1"] } hflat hpicks webTask
    firstCreation.2).2 "h1" _ r z .start again).2 [] "h1" [] _ _ rfl nofun hdocument hread |>.1

end Cluster

end ControlPlane
