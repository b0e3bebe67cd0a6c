import ControlPlane.Proofs.Manifest.Listing
import ControlPlane.Proofs.Registry.Session

/-!
# What an unbinding takes with it

The manifests of a task are picked from the list of its machine by their id, but its document is
removed by its key, together with everything that lies under the key. As long as ids are names
without slashes nothing lies there. Nothing keeps them from being paths, though, and then the
documents of the tasks below go as well, while their manifests stay in the list and go on running.

The document of the task and those below it on the same machine are all that is lost. Everything
else is found again as it was, on any store that was filled by binding and unbinding tasks, and
whatever has failed on the way there.

## Main definitions

* `Registry.OnFlat`: operations on machines that name documents, with any ids
* `Registry.answer`: what work comes to on a store
* `Registry.Unbound`: what an unbinding leaves of the documents

## Main results

* `Registry.Session.filed`: task documents stay in order, whatever their ids
* `Registry.Filed.ensures_unbound`: when an unbinding succeeds, and what it takes
* `Registry.deleteTask_spares`: what is found after a task was unbound
* `Registry.deleteTask_takes_below`: a task that is lost with another one
-/

namespace ControlPlane.Registry

open Contents ControlPlane.Path Keys Store StoreWork

variable {failing : Prop} {machines : List String} {machine m id j : String}
  {b c d : Contents} {s v : Store}

/-! ### Sessions with any ids -/

/-- Operations on machines whose names are parts of keys. Ids are not looked at. -/
def OnFlat : Operation → Prop
  | .create machine _ => Flat machine
  | .delete _ => True

theorem Filed.cleared {key : String} {recursive : Bool} (h : Filed machines c)
    (hd : c.Cleared d key recursive) : Filed machines d := by
  refine h.removed fun k e he => ?_
  rw [hd.kept?] at he
  split at he
  · cases he
  · exact he

/-- One operation keeps the task documents in order, whatever the ids are. -/
theorem Filed.ensures_work {op : Operation} (h : Filed machines s.contents)
    (hflat : ∀ m ∈ machines, Flat m) (hop : OnFlat op) :
    (op.work machines).run.Ensures (serves failing) (fun u => Filed machines u.contents)
      (fun _ _ => True) s := by
  cases op with
  | create machine t =>
    refine ensures_createTask h hflat h (fun _ => trivial) fun u list hfree _ hw => ?_
    have hu : Filed machines u.contents := h.wrote_task (t := t.boundTo machine) hflat hop
      (fun m hm => hfree m (List.mem_cons_of_mem _ hm)) hw
    exact ⟨hu, fun _ _ => trivial, fun v hv => ⟨hu.wrote_manifests hflat hop hv, trivial⟩⟩
  | delete id =>
    refine ensures_deleteTask_under h hflat h (fun _ _ => trivial) (fun _ => trivial)
      (fun _ _ _ _ _ => trivial) fun machine t u list hlocated _ hw => ?_
    have hu := h.wrote_manifests hflat (hflat machine (located?_eq_some hlocated).1) hw
    exact ⟨hu, fun _ _ => trivial, fun v hv => ⟨hu.cleared hv, trivial⟩⟩

/-- **The task documents of a session stay in order,** whatever the ids are. -/
theorem Session.filed (h : Session failing machines OnFlat s) (hflat : ∀ m ∈ machines, Flat m) :
    Filed machines s.contents :=
  (h.induction (fun u => Filed machines u.contents) (fun _ => True) (filed_empty machines) trivial
    fun _ _ hu hop _ => hu.ensures_work hflat hop).1

/-! ### Asking -/

/-- What work comes to on a store, with all its calls made at one moment. -/
def answer {α : Type} (now : Moment) (w : StoreWork α) (s : Store) : Except Error α :=
  (w.run.run (fun c s => s.perform now c) s).1

theorem answer_eq {α : Type} {w : StoreWork α} {r : Except Error α} (now : Moment)
    (h : w.run.Ensures (serves False) (fun _ => True) (fun x _ => x = r) s) :
    answer now w s = r :=
  h.post_of_reaches (Program.Reaches.of_run (fun _ _ => .performed now) w.run s)

theorem answer_task (h : Filed machines s.contents) (hflat : ∀ m ∈ machines, Flat m)
    (now : Moment) (id : String) :
    answer now (task machines id) s =
      (located? s.contents machines id).elim (.error (.taskNotFound id)) fun x => .ok x.2 := by
  refine answer_eq now (Work.ensures_map.mpr ((ensures_locate h hflat trivial id).mono ?_))
  rintro r _ - ⟨-, rfl | ⟨hfailing, -⟩⟩
  · cases located? s.contents machines id <;> rfl
  · exact hfailing.elim

/-- A task is found on a machine that it then names. -/
theorem located?_of_answer {t : Task} {now : Moment} (h : Filed machines s.contents)
    (hflat : ∀ m ∈ machines, Flat m) (ht : answer now (task machines id) s = .ok t) :
    located? s.contents machines id = some (t.currentState.host, t) := by
  rw [answer_task h hflat] at ht
  cases hlocated : located? s.contents machines id with
  | none =>
    rw [hlocated] at ht
    cases ht
  | some found =>
    rw [hlocated] at ht
    obtain ⟨-, t', -, hhost⟩ := located?_eq_some hlocated
    obtain rfl : found.2 = t := Except.ok.inj ht
    rw [hhost]
    exact congrArg some (Prod.ext rfl hhost)

theorem answer_manifests (h : s.contents.Lasting) (now : Moment) (machine : String) :
    answer now (manifests machine) s = manifestsOn s.contents machine := by
  refine answer_eq now ((ensures_manifests h trivial machine).mono ?_)
  rintro r _ - ⟨-, hr | ⟨hfailing, -⟩⟩
  · exact hr
  · exact hfailing.elim

/-! ### What is left -/

/-- Where no task is on two machines, it does not matter where one is looked for first. -/
theorem Filed.located?_eq_some_iff {t : Task} (h : Filed machines c) :
    located? c machines id = some (m, t) ↔
      m ∈ machines ∧ ∃ t', taskOn? c m id = some t' ∧ t = t'.observedOn m := by
  refine ⟨located?_eq_some, ?_⟩
  rintro ⟨hm, t', ht', rfl⟩
  have hsome : (located? c machines id).isSome = true := by
    rw [located?, List.findSome?_isSome_iff]
    exact ⟨m, hm, by rw [ht']; rfl⟩
  obtain ⟨⟨m', t⟩, hlocated⟩ := Option.isSome_iff_exists.mp hsome
  obtain ⟨hm', t'', ht'', rfl⟩ := located?_eq_some hlocated
  obtain rfl := h.alone id m hm m' hm' (isSome_kept?_of_taskOn? ht') (isSome_kept?_of_taskOn? ht'')
  rw [hlocated, Option.some.inj (ht'.symm.trans ht'')]

/-- `d` is what unbinding a task from a machine leaves of `c`. -/
structure Unbound (machine id : String) (c d : Contents) : Prop where
  tasks : ∀ m j, Flat m →
    taskOn? d m j = if m = machine ∧ (j = id ∨ Below id j) then none else taskOn? c m j
  read : ∃ list, manifestsOn c machine = .ok list ∧
    manifestsOn d machine = Manifest.decodeList (Manifest.encodeList (list.filter (·.id != id)))
  others : ∀ m, Flat m → m ≠ machine → manifestsOn d m = manifestsOn c m

/-- The two writes of an unbinding: a shorter manifest list, and then the removal. -/
theorem unbound_of_cleared {list : List Manifest} (hmachine : Flat machine)
    (hread : manifestsOn c machine = .ok list)
    (hw : c.Wrote b (Keys.manifests machine) (Manifest.encodeList (list.filter (·.id != id))))
    (hd : b.Cleared d (Keys.task machine id) true) : Unbound machine id c d := by
  have hkept : ∀ m, Flat m → d.kept? (Keys.manifests m) = b.kept? (Keys.manifests m) := by
    intro m hm
    rw [hd.kept?, if_neg]
    rintro (heq | hunder)
    · exact task_ne_manifests hmachine hm heq.symm
    · rw [isUnder_task_manifests hmachine hm] at hunder
      cases hunder
  refine ⟨fun m j hm => ?_, ⟨list, hread, ?_⟩, fun m hm hne => ?_⟩
  · have hgone : (Keys.task m j = Keys.task machine id ∨
        (true && isUnder (Keys.task machine id) (Keys.task m j) true) = true) ↔
          m = machine ∧ (j = id ∨ Below id j) := by
      rw [Bool.true_and, task_inj hm hmachine, isUnder_task_task_iff hmachine hm, and_or_left]
    rw [taskOn?, hd.kept?]
    by_cases hlost : m = machine ∧ (j = id ∨ Below id j)
    · rw [if_pos (hgone.mpr hlost), if_pos hlost]
      rfl
    · rw [if_neg (mt hgone.mp hlost), if_neg hlost]
      exact taskOn?_of_wrote_manifests hm hmachine hw j
  · rw [manifestsOn, hkept machine hmachine, hw.kept?, if_pos rfl]
  · rw [manifestsOn, hkept m hm, hw.frame _ fun heq => hne ((manifests_inj hm hmachine).mp heq)]
    rfl

/-- **An unbinding that succeeds** takes the documents of the ids that go on behind the id. It does
succeed if no call fails, the task is found and the manifest list of its machine can be read. -/
theorem Filed.ensures_unbound (h : Filed machines s.contents) (hflat : ∀ m ∈ machines, Flat m)
    (id : String) :
    (deleteTask machines id).run.Ensures (serves failing) (fun _ => True)
      (fun r v =>
        (r = .ok () → Filed machines v.contents ∧
          ∃ machine t, located? s.contents machines id = some (machine, t) ∧
            Unbound machine id s.contents v.contents) ∧
        (¬ failing → ∀ machine t list, located? s.contents machines id = some (machine, t) →
          manifestsOn s.contents machine = .ok list → r = .ok ())) s := by
  refine ensures_deleteTask_under h hflat trivial ?_ ?_ ?_ ?_
  · exact fun hfailing e => ⟨nofun, fun hnot => absurd hfailing hnot⟩
  · intro hmissing
    refine ⟨nofun, fun _ machine t list hlocated => ?_⟩
    rw [hmissing] at hlocated
    cases hlocated
  · intro machine t e hlocated hunread
    refine ⟨nofun, fun _ machine' t' list hlocated' hread => ?_⟩
    obtain ⟨rfl, -⟩ := Prod.mk.inj (Option.some.inj (hlocated.symm.trans hlocated'))
    rw [hunread] at hread
    cases hread
  · intro machine t u list hlocated hread hw
    have hmachine := hflat machine (located?_eq_some hlocated).1
    refine ⟨trivial, fun hfailing e => ⟨nofun, fun hnot => absurd hfailing hnot⟩, fun v hv => ?_⟩
    exact ⟨trivial, fun _ => ⟨(h.wrote_manifests hflat hmachine hw).cleared hv, machine, t,
      hlocated, unbound_of_cleared hmachine hread hw hv⟩, fun _ _ _ _ _ _ => rfl⟩

/-- A task is located where it was, or not at all. -/
theorem Unbound.located?_iff {t : Task} (h : Unbound machine id c d) (hc : Filed machines c)
    (hd : Filed machines d) (hflat : ∀ m ∈ machines, Flat m) :
    located? d machines j = some (m, t) ↔
      located? c machines j = some (m, t) ∧ ¬ (m = machine ∧ (j = id ∨ Below id j)) := by
  rw [hc.located?_eq_some_iff, hd.located?_eq_some_iff]
  constructor
  · rintro ⟨hm, t', ht', rfl⟩
    rw [h.tasks m j (hflat m hm)] at ht'
    split at ht'
    · cases ht'
    · rename_i hkept
      exact ⟨⟨hm, t', ht', rfl⟩, hkept⟩
  · rintro ⟨⟨hm, t', ht', rfl⟩, hkept⟩
    exact ⟨hm, t', by rw [h.tasks m j (hflat m hm), if_neg hkept, ht'], rfl⟩

/-- A task that is found before an unbinding, and what is found afterwards. -/
theorem Unbound.answer_task {t : Task} {now later : Moment}
    (h : Unbound machine id s.contents v.contents) (hs : Filed machines s.contents)
    (hv : Filed machines v.contents) (hflat : ∀ m ∈ machines, Flat m) (hj : j ≠ id)
    (ht : answer now (task machines j) s = .ok t) :
    answer later (task machines j) v =
      if t.currentState.host = machine ∧ Below id j then .error (.taskNotFound j) else .ok t := by
  have hbefore := located?_of_answer hs hflat ht
  rw [Registry.answer_task hv hflat]
  by_cases hlost : t.currentState.host = machine ∧ Below id j
  · have hnone : located? v.contents machines j = none := by
      refine Option.eq_none_iff_forall_ne_some.mpr ?_
      rintro ⟨m, t'⟩ hafter
      obtain ⟨hsame, hkept⟩ := (h.located?_iff hs hv hflat).mp hafter
      obtain ⟨rfl, rfl⟩ := Prod.mk.inj (Option.some.inj (hbefore.symm.trans hsame))
      exact hkept ⟨hlost.1, .inr hlost.2⟩
    rw [hnone, if_pos hlost]
    rfl
  · have hkept : ¬ (t.currentState.host = machine ∧ (j = id ∨ Below id j)) :=
      fun hgone => hlost ⟨hgone.1, hgone.2.resolve_left hj⟩
    rw [(h.located?_iff hs hv hflat).mpr ⟨hbefore, hkept⟩, if_neg hlost]
    rfl

/-- **What is found after a task was unbound.** On a store that was filled by binding and unbinding
tasks with any ids, if an unbinding succeeds, then every other task that was found before is found
as it was, unless it is on the same machine and its id goes on behind the id of the task; those are
not found any more. The manifest list of the machine is written without the manifests of the id, and
those alone. -/
theorem deleteTask_spares (hflat : ∀ m ∈ machines, Flat m)
    (hs : Session failing machines OnFlat s)
    (hrun : Program.Reaches (serves failing) (deleteTask machines id).run s (.done (.ok ())) v)
    (now later : Moment) :
    ∃ t list, answer now (task machines id) s = .ok t ∧
      answer now (manifests t.currentState.host) s = .ok list ∧
      (∀ j t', j ≠ id → answer now (task machines j) s = .ok t' →
        answer later (task machines j) v =
          if t'.currentState.host = t.currentState.host ∧ Below id j then .error (.taskNotFound j)
          else .ok t') ∧
      (∀ m, Flat m → answer later (manifests m) v =
        if m = t.currentState.host then
          Manifest.decodeList (Manifest.encodeList (list.filter (·.id != id)))
        else answer now (manifests m) s) ∧
      ((∀ x ∈ list, x.All Yaml.Clean) →
        answer later (manifests t.currentState.host) v = .ok (list.filter (·.id != id))) := by
  have hsfiled := hs.filed hflat
  obtain ⟨hvfiled, machine, t, hlocated, hunbound⟩ :=
    ((hsfiled.ensures_unbound hflat id).post_of_reaches hrun).1 rfl
  obtain ⟨-, t, -, rfl⟩ := located?_eq_some hlocated
  obtain ⟨list, hread, hwritten⟩ := hunbound.read
  refine ⟨t.observedOn machine, list, ?_, ?_, ?_, ?_, ?_⟩
  · rw [answer_task hsfiled hflat, hlocated]
    rfl
  · rw [answer_manifests hsfiled.lasting]
    exact hread
  · exact fun j t' hj ht' => hunbound.answer_task hsfiled hvfiled hflat hj ht'
  · intro m hm
    rw [answer_manifests hvfiled.lasting, answer_manifests hsfiled.lasting]
    by_cases heq : m = machine
    · subst heq
      rw [hwritten]
      exact (if_pos rfl).symm
    · rw [hunbound.others m hm heq]
      exact (if_neg heq).symm
  · intro hclean
    rw [answer_manifests hvfiled.lasting]
    refine hwritten.trans (Manifest.decodeList_encodeList fun x hx => ?_)
    exact hclean x (List.mem_of_mem_filter hx)

/-! ### A task that is lost -/

/-- What is left of an operation that no call fails. -/
def Operation.left (machines : List String) (op : Operation) (s : Store) : Store :=
  ((op.work machines).run.run (fun c s => s.perform 0 c) s).2

theorem Operation.reaches_left (machines : List String) (op : Operation) (s : Store) :
    ∃ r, Program.Reaches (serves False) (op.work machines).run s (.done r)
      (op.left machines s) :=
  ⟨_, .of_run (fun _ _ => .performed 0) _ _⟩

theorem Session.left {admits : Operation → Prop} {op : Operation}
    (h : Session False machines admits s) (hop : admits op) :
    Session False machines admits (op.left machines s) := by
  obtain ⟨r, hrun⟩ := op.reaches_left machines s
  exact .operation h hop hrun

/-- Two tasks on a machine, the id of one of them behind that of the other. -/
def nested : Store :=
  Operation.left ["h1"] (.create "h1" { id := "a/b" })
    (Operation.left ["h1"] (.create "h1" { id := "a" }) .empty)

theorem flat_h1 : ∀ m ∈ ["h1"], Flat m := by decide

theorem session_nested : Session False ["h1"] OnFlat nested := by
  have hcreate : ∀ t, OnFlat (.create "h1" t) := fun _ => flat_h1 "h1" (List.mem_singleton_self _)
  exact (Session.empty.left (hcreate _)).left (hcreate _)

theorem located?_nested : ∀ id ∈ ["a", "a/b"], ∃ t,
    located? nested.contents ["h1"] id = some ("h1", t) := by
  have hkept : ∀ id ∈ ["a", "a/b"],
      (nested.contents.kept? (Keys.task "h1" id)).isSome = true := by
    decide +kernel
  have hfiled := session_nested.filed flat_h1
  intro id hid
  obtain ⟨t, ht, -⟩ := hfiled.exists_taskOn (by decide) (hkept id hid)
  exact ⟨_, hfiled.located?_eq_some_iff.mpr ⟨List.mem_singleton_self _, t, ht, rfl⟩⟩

theorem answer_nested : ∃ t, answer 0 (task ["h1"] "a/b") nested = .ok t ∧
    t.currentState.host = "h1" := by
  have hfiled := session_nested.filed flat_h1
  obtain ⟨t, hlocated⟩ := located?_nested "a/b" (by decide)
  obtain ⟨-, t', -, hhost⟩ := located?_eq_some hlocated
  refine ⟨t, ?_, by rw [hhost]; rfl⟩
  rw [answer_task hfiled flat_h1, hlocated]
  rfl

theorem manifestsOn_nested : manifestsOn nested.contents "h1" =
    .ok [boundManifest { id := "a" }, boundManifest { id := "a/b" }] := by
  decide +kernel

/-- The store without the first of the two tasks. -/
def unnested : Store := Operation.left ["h1"] (.delete "a") nested

theorem reaches_unnested :
    Program.Reaches (serves False) (deleteTask ["h1"] "a").run nested (.done (.ok ()))
      unnested := by
  obtain ⟨r, hrun⟩ := Operation.reaches_left ["h1"] (.delete "a") nested
  have hfiled := session_nested.filed flat_h1
  obtain ⟨t, ht⟩ := located?_nested "a" (by decide)
  have hunbound := (hfiled.ensures_unbound flat_h1 "a").post_of_reaches hrun
  obtain rfl := hunbound.2 id "h1" t _ ht manifestsOn_nested
  exact hrun

/-- The second task is lost with the first one, and its manifest stays. -/
theorem deleteTask_spares_nested :
    (∃ t, answer 0 (task ["h1"] "a/b") nested = .ok t) ∧
      answer 0 (task ["h1"] "a/b") unnested = .error (.taskNotFound "a/b") ∧
      answer 0 (manifests "h1") unnested = .ok [boundManifest { id := "a/b" }] := by
  have hfiled := session_nested.filed flat_h1
  obtain ⟨t, list, ht, hlist, htasks, -, hread⟩ :=
    deleteTask_spares flat_h1 session_nested reaches_unnested 0 0
  obtain ⟨hmem, -⟩ := located?_eq_some (located?_of_answer hfiled flat_h1 ht)
  have hhost := List.mem_singleton.mp hmem
  rw [hhost, answer_manifests hfiled.lasting, manifestsOn_nested] at hlist
  obtain rfl := Except.ok.inj hlist
  obtain ⟨t', ht', hhost'⟩ := answer_nested
  refine ⟨⟨t', ht'⟩, ?_, ?_⟩
  · rw [htasks "a/b" t' (by decide) ht', if_pos]
    exact ⟨hhost'.trans hhost.symm, by decide⟩
  · have hclean : ∀ x ∈ [boundManifest { id := "a" }, boundManifest { id := "a/b" }],
        x.All Yaml.Clean := by
      simp only [List.forall_mem_cons]
      exact ⟨⟨by decide, nofun⟩, ⟨by decide, nofun⟩, nofun⟩
    rw [← hhost, hread hclean]
    rfl

/-- **Unbinding a task may touch others,** which are then not found any more. -/
theorem deleteTask_takes_below :
    ¬ ∀ (machines : List String) (id j : String) (t : Task) (s v : Store), machines.Nodup →
      (∀ m ∈ machines, Flat m) → Session False machines OnFlat s →
      Program.Reaches (serves False) (deleteTask machines id).run s (.done (.ok ())) v →
      j ≠ id → answer 0 (task machines j) s = .ok t →
      answer 0 (task machines j) v = .ok t ∧
        ∀ before after, answer 0 (manifests t.currentState.host) s = .ok before →
          answer 0 (manifests t.currentState.host) v = .ok after →
          ((∃ x ∈ before, x.id = j) ↔ ∃ x ∈ after, x.id = j) := by
  intro h
  have hfiled := session_nested.filed flat_h1
  obtain ⟨t, hbefore, hhost⟩ := answer_nested
  have hafter := (h ["h1"] "a" "a/b" t nested unnested (List.nodup_singleton _) flat_h1
    session_nested reaches_unnested (by decide) hbefore).1
  obtain ⟨hunfiled, machine, t', hlocated, hunbound⟩ :=
    ((hfiled.ensures_unbound flat_h1 "a").post_of_reaches reaches_unnested).1 rfl
  obtain ⟨hmem, -⟩ := located?_eq_some hlocated
  -- the task is where the other one was, so that its document was removed as well
  have hkept := ((hunbound.located?_iff hfiled hunfiled flat_h1).mp
    (located?_of_answer hunfiled flat_h1 hafter)).2
  exact hkept ⟨hhost.trans (List.mem_singleton.mp hmem).symm, .inr (by decide)⟩

end ControlPlane.Registry
