import ControlPlane.Proofs.Registry.Planned
import ControlPlane.Proofs.Store.Ledger

/-!
# Listing the tasks that a selector selects

The tasks of a cluster are listed machine by machine, on each in the order of the keys, and of these
those are given whose labels contain all pairs of the selector. This holds in every state of the
store, with entries that come to their end between two calls and with documents that cannot be read:
a document that cannot be read is as good as none.

`Finds` says what there is to be listed, without the selector and without the calls. All else is
about filtering one list: that a selector with more pairs gives a sublist, that the one without
pairs gives everything, and that stores which differ in unreadable documents only are listed alike.

## Main definitions

* `Stands`: what stands directly under a directory at a moment
* `Plan.Finds`: the tasks of machines, one machine after the other
* `SameReadable`: two stores that differ in unreadable documents only
* `Plan.tasks`: what listing comes to

## Main results

* `SameReadable.of_set`, `SameReadable.of_delete`: unreadable documents come, change and go
* `Plan.tasks_eq`: listing filters what is found
* `Plan.tasks_selected`: all that is said of it
-/

namespace ControlPlane

open Program Registry Store

/-! ### What there is to be listed -/

/-- The nodes that stand directly under a directory at a moment: under every key that lies there the
entry whose time is not over, by ascending bytes of the keys. -/
structure Stands (c : Contents) (now : Moment) (dir : String) (nodes : List Node) : Prop where
  ascending : nodes.Pairwise fun a b => utf8Bytes a.key < utf8Bytes b.key
  mem_iff : ∀ node, node ∈ nodes ↔ Path.LiesUnder dir node.key false ∧
    (c.living? now node.key).map (Entry.toNode node.key) = some node

/-- The tasks that can be read from nodes, in the order of the nodes. Each says that it was observed
on the machine, whatever its document says about that. -/
def tasksFrom (m : String) (nodes : List Node) : List Task :=
  (nodes.filterMap fun node => (Json.ofText? node.value).bind Task.read).map fun t =>
    { t with currentState := { t.currentState with host := m } }

/-- The tasks of machines, one machine after the other, each at the moment of its call. -/
inductive Plan.Finds (plan : Plan) (s : Store) : Nat → List String → List Task → Prop
  | nil (i : Nat) : Finds plan s i [] []
  | cons {i : Nat} {m : String} {machines : List String} {nodes : List Node} {tasks : List Task} :
      Stands s.contents (plan.clock i) (Keys.tasksDir m) nodes →
      Finds plan s (i + 1) machines tasks →
      Finds plan s i (m :: machines) (tasksFrom m nodes ++ tasks)

/-- Nothing is there that is read as a task. -/
def Unreadable (e? : Option Entry) : Prop :=
  ∀ e, e? = some e → (Json.ofText? e.value).bind Task.read = none

instance (e? : Option Entry) : Decidable (Unreadable e?) :=
  decidable_of_iff ((e?.all fun e => ((Json.ofText? e.value).bind Task.read).isNone) = true) (by
    cases e? <;> simp [Unreadable])

/-- From some moment on, everything in the directories of machines is the same in both stores, but
for documents that cannot be read. -/
def SameReadable (start : Moment) (machines : List String) (s u : Store) : Prop :=
  ∀ m ∈ machines, ∀ key, Path.LiesUnder (Keys.tasksDir m) key false → ∀ now, start ≤ now →
    u.contents.living? now key = s.contents.living? now key ∨
      Unreadable (s.contents.living? now key) ∧ Unreadable (u.contents.living? now key)

variable {c d : Contents} {s u v : Store} {now start : Moment} {machines : List String}
  {m key value : String}

/-- The nodes of the directory after what is over was dropped. -/
theorem stands_nodes (c : Contents) (now : Moment) (dir : String) :
    Stands c now dir ((c.purge now).2.nodes fun key => Path.isUnder dir key false) := by
  refine ⟨((c.purge now).2.ascending_nodes _).imp utf8Bytes_lt, fun node => ?_⟩
  rw [Contents.mem_nodes_iff, Contents.kept?_purge, ← Path.isUnder_iff_liesUnder,
    Option.map_eq_some_iff]
  constructor
  · rintro ⟨e, he, hunder, hnode⟩
    exact ⟨hunder, e, he, hnode.symm⟩
  · rintro ⟨hunder, e, he, hnode⟩
    exact ⟨e, he, hunder, hnode.symm⟩

/-! ### Documents that cannot be read -/

/-- The documents of a directory are determined by the readable ones. -/
theorem documentsIn_congr {α : Type} {read : Json → Option α} {dir : String}
    (h : ∀ key, Path.isUnder dir key false = true →
      (d.kept? key).filter (fun e => ((Json.ofText? e.value).bind read).isSome) =
        (c.kept? key).filter fun e => ((Json.ofText? e.value).bind read).isSome) :
    documentsIn d read dir = documentsIn c read dir := by
  -- leaving out first what cannot be read does not change what is read
  have hreadable : ∀ b : Contents, documentsIn b read dir =
      ((b.entries.filterKeys fun key => Path.isUnder dir key false).filter fun _ e =>
        ((Json.ofText? e.value).bind read).isSome).entries.filterMap fun entry =>
          (Json.ofText? entry.2.value).bind read := by
    intro b
    rw [documentsIn, Contents.nodes, List.filterMap_map, KeyMap.filter, List.filterMap_filter]
    refine congrFun (congrArg List.filterMap (funext fun entry => ?_)) _
    change (Json.ofText? entry.2.value).bind read = _
    cases (Json.ofText? entry.2.value).bind read <;> rfl
  rw [hreadable, hreadable]
  refine congrArg (fun m : KeyMap Entry => m.entries.filterMap _) (KeyMap.ext_get? fun key => ?_)
  rw [KeyMap.get?_filter, KeyMap.get?_filter, KeyMap.get?_filterKeys, KeyMap.get?_filterKeys]
  by_cases hunder : Path.isUnder dir key false = true
  · rw [if_pos hunder, if_pos hunder]
    exact h key hunder
  · rw [if_neg hunder, if_neg hunder]

theorem Unreadable.filter_eq_none {e? : Option Entry} (h : Unreadable e?) :
    e?.filter (fun e => ((Json.ofText? e.value).bind Task.read).isSome) = none := by
  cases e? with
  | none => rfl
  | some e => rw [Option.filter_some, h e rfl]; rfl

/-- What cannot be read at a moment cannot be read later on: it is the same or is gone. -/
theorem Unreadable.of_le (h : Unreadable (c.living? start key)) (hnow : start ≤ now) :
    Unreadable (c.living? now key) := by
  intro e he
  obtain ⟨hkept, hlives⟩ := Option.filter_eq_some_iff.mp he
  refine h e (Option.filter_eq_some_iff.mpr ⟨hkept, ?_⟩)
  cases hover : e.expired start with
  | false => rfl
  | true => rw [Entry.expired_of_le hnow hover] at hlives; exact hlives

theorem SameReadable.refl (start : Moment) (machines : List String) (s : Store) :
    SameReadable start machines s s := fun _ _ _ _ _ _ => .inl rfl

theorem SameReadable.trans (h : SameReadable start machines s u)
    (h' : SameReadable start machines u v) : SameReadable start machines s v := by
  intro m hm key hkey now hnow
  rcases h m hm key hkey now hnow with heq | ⟨hs, hu⟩
  · rw [← heq]
    exact h' m hm key hkey now hnow
  · refine .inr ⟨hs, ?_⟩
    rcases h' m hm key hkey now hnow with heq' | ⟨-, hv⟩
    · rwa [heq']
    · exact hv

/-- A document that cannot be read was put where no readable one was. -/
theorem SameReadable.of_set (hnow : now ≤ start) (hold : Unreadable (s.contents.living? now key))
    (hnew : (Json.ofText? value).bind Task.read = none) (ttl : Option Span) :
    SameReadable start machines s (s.perform now (.set key value ttl)).2 := by
  intro m _ k _ later hlater
  have hcontents : (s.perform now (.set key value ttl)).2.contents =
      ((s.contents.purge now).2.put now .set key value ttl).2.2 :=
    (s.update_eq_settle now fun contents => .ok (contents.put now .set key value ttl)).2.1
  have hle : now ≤ later := Nat.le_trans hnow hlater
  rw [hcontents, Contents.living?, Contents.kept?_put]
  by_cases hkey : k = key
  · rw [if_pos hkey, hkey]
    refine .inr ⟨hold.of_le hle, fun e he => ?_⟩
    rw [← Option.some.inj (Option.filter_eq_some_iff.mp he).1]
    exact hnew
  · rw [if_neg hkey]
    exact .inl (Contents.living?_purge hle k)

/-- A document that cannot be read was deleted. -/
theorem SameReadable.of_delete (hnow : now ≤ start)
    (hold : Unreadable (s.contents.living? now key)) :
    SameReadable start machines s (s.perform now (.delete key false)).2 := by
  intro m _ k _ later hlater
  have hcontents := (s.update_eq_settle now fun contents => contents.delete key false).2.1
  change (s.perform now (.delete key false)).2.contents = _ at hcontents
  have hle : now ≤ later := Nat.le_trans hnow hlater
  have hpurged := Contents.living?_purge (c := s.contents) hle k
  rw [hcontents, Contents.settle, Contents.delete_eq]
  by_cases hnil : ((s.contents.purge now).2.entries.filter (Contents.doomed key false)).keys = []
  · rw [if_pos hnil]
    exact .inl hpurged
  · rw [if_neg hnil]
    by_cases hkey : k = key
    · refine .inr ⟨by rw [hkey]; exact hold.of_le hle, fun e he => ?_⟩
      have hgone := (Option.filter_eq_some_iff.mp he).1
      rw [Contents.kept?_remove] at hgone
      simp [Contents.doomed, hkey] at hgone
    · refine .inl ?_
      rw [← hpurged, Contents.living?, Contents.living?, Contents.kept?_remove]
      simp [Contents.doomed, beq_eq_false_iff_ne.mpr hkey]

namespace Plan

variable {plan : Plan} {i : Nat}

/-! ### Listing -/

/-- The tasks that the machines have in the entries of a store. -/
def found (plan : Plan) (s : Store) : Nat → List String → List Task
  | _, [] => []
  | i, m :: machines =>
    tasksOn (s.contents.purge (plan.clock i)).2 m ++ found plan s (i + 1) machines

theorem finds_found (plan : Plan) (s : Store) (i : Nat) (machines : List String) :
    plan.Finds s i machines (plan.found s i machines) := by
  induction machines generalizing i with
  | nil => exact .nil i
  | cons m machines ih => exact .cons (stands_nodes ..) (ih (i + 1))

/-- **Documents that cannot be read make no difference,** wherever they stand among the others. -/
theorem found_congr (hclock : Monotone plan.clock)
    (h : SameReadable (plan.clock 0) machines s u) :
    plan.found u i machines = plan.found s i machines := by
  induction machines generalizing i with
  | nil => rfl
  | cons m machines ih =>
    rw [found, found, ih fun m' hm' => h m' (List.mem_cons_of_mem m hm'), tasksOn, tasksOn]
    refine congrArg (fun l : List Task => l.map _ ++ _) (documentsIn_congr fun key hkey => ?_)
    rw [Contents.kept?_purge, Contents.kept?_purge]
    rcases h m (List.mem_cons_self ..) key (Path.isUnder_iff_liesUnder.mp hkey) (plan.clock i)
      (hclock i.zero_le) with heq | ⟨hs, hu⟩
    · exact congrArg (Option.filter _) heq
    · exact hu.filter_eq_none.trans hs.filter_eq_none.symm

/-- One machine after the other is listed. The induction carries that the entries are still those of
the beginning. -/
theorem run_mapM_machineTasks (hclock : Monotone plan.clock) (hfault : ∀ i, plan.fault i = none)
    (machines : List String) (h : plan.Kept s i u) :
    ∃ lists x, (machines.mapM machineTasks).run.run plan.store (u, i) = (.ok lists, x) ∧
      lists.flatten = plan.found s i machines := by
  induction machines generalizing i u with
  | nil => exact ⟨[], _, rfl, rfl⟩
  | cons m machines ih =>
    obtain ⟨v, hlisted, hkept⟩ := plan.run_machineTasks hclock h m
    obtain ⟨lists, x, hrest, hlists⟩ := ih hkept
    rw [listed, hfault i] at hlisted
    refine ⟨tasksOn (s.contents.purge (plan.clock i)).2 m :: lists, x, ?_, ?_⟩
    · rw [List.mapM_cons, Work.run_bind_eq hlisted]
      exact Work.run_bind_eq hrest _
    · rw [List.flatten_cons, hlists, found]

/-- What listing comes to when calls are answered as planned. -/
def tasks (plan : Plan) (s : Store) (machines : List String) (selector : Labels) :
    Except Error (List Task) :=
  ((Registry.tasks machines selector).run.run plan.store (s, 0)).1

/-- **Listing filters what is found,** and finds it in the order of machines and keys. -/
theorem tasks_eq (hclock : Monotone plan.clock) (hfault : ∀ i, plan.fault i = none) (s : Store)
    (machines : List String) (selector : Labels) :
    plan.tasks s machines selector =
      .ok ((plan.found s 0 machines).filter fun t => selector.Within t.labels) := by
  have hnew : plan.Kept s 0 s := fun now _ => Unchanged.refl now s
  obtain ⟨lists, x, hrun, hlists⟩ := run_mapM_machineTasks hclock hfault machines hnew
  rw [tasks, Registry.tasks, Work.run_bind_eq hrun, ← hlists]
  refine congrArg (fun p => Except.ok (lists.flatten.filter p)) (funext fun t => ?_)
  rw [Bool.eq_iff_iff, decide_eq_true_iff]
  exact Labels.selectedBy_iff

/-- **Listing gives the tasks of one machine after the other, as far as they are selected.** -/
theorem tasks_selected (hclock : Monotone plan.clock) (hfault : ∀ i, plan.fault i = none)
    (s : Store) (machines : List String) :
    ∃ all, plan.Finds s 0 machines all ∧
      (∀ selector : Labels, plan.tasks s machines selector =
        .ok (all.filter fun t => selector.Within t.labels)) ∧
      plan.tasks s machines .empty = .ok all ∧
      (∀ fewer more : Labels, fewer.Within more → ∃ many few,
        plan.tasks s machines fewer = .ok many ∧ plan.tasks s machines more = .ok few ∧
          few.Sublist many) ∧
      ∀ u, SameReadable (plan.clock 0) machines s u → ∀ selector,
        plan.tasks u machines selector = plan.tasks s machines selector := by
  have hlisted := tasks_eq hclock hfault s machines
  refine ⟨_, finds_found plan s 0 machines, hlisted, ?_, fun fewer more hwithin => ?_,
    fun u hsame selector => ?_⟩
  · rw [hlisted]
    exact congrArg Except.ok (List.filter_eq_self.mpr fun t _ =>
      decide_eq_true (Labels.empty_within t.labels))
  · refine ⟨_, _, hlisted fewer, hlisted more, List.monotone_filter_right _ fun t ht => ?_⟩
    exact decide_eq_true (hwithin.trans (of_decide_eq_true ht))
  · rw [tasks_eq hclock hfault u, hlisted, found_congr hclock hsame]

/-- A task with labels. -/
def labelled (id : String) (labels : List (String × String)) : Task :=
  { id := id, labels := .ofList labels }

/-- Its document, without the fields that have their defaults. -/
def labelledText (id : String) (labels : List (String × String)) : String :=
  (Json.record [("id", .ofString id), ("labels", .ofTextMap (.ofList labels))]).toText

/-- Two machines with tasks of the front end, of which one goes after a second, and with documents
that cannot be read. -/
def fronts : Store :=
  let web := [("app", "web")]
  let s := (Store.empty.perform 0 (.set (Keys.task "h1" "b") (labelledText "b" web) none)).2
  let s := (s.perform 0 (.set (Keys.task "h1" "a") (labelledText "a" []) none)).2
  let s := (s.perform 0 (.set (Keys.task "h1" "aa") "[" none)).2
  let s := (s.perform 0 (.set (Keys.task "h2" "c") (labelledText "c" web)
    (some (Span.ofSeconds 1)))).2
  let s := (s.perform 0 (.set (Keys.task "h2" "d") (labelledText "d" web) none)).2
  (s.perform 0 (.set (Keys.task "h2" "e") "7" none)).2

/-- The same machines. One unreadable document was added, one changed and one removed. -/
def cluttered : Store :=
  let s := (fronts.perform 0 (.set (Keys.task "h3" "f") "none" none)).2
  let s := (s.perform 0 (.set (Keys.task "h1" "aa") "]" none)).2
  (s.perform 0 (.delete (Keys.task "h2" "e") false)).2

/-- One call in every second. -/
def everySecond : Plan := { clock := fun i => i * 1000000000 }

/-- When the second machine is listed, one of its tasks is over. Every task bears the machine on
which it was found. -/
theorem tasks_selected_fronts :
    Monotone everySecond.clock ∧ (∀ i, everySecond.fault i = none) ∧
      ∃ all, everySecond.Finds fronts 0 ["h1", "h2", "h3"] all ∧
        (all.map fun t => (t.id, t.currentState.host)) = [("a", "h1"), ("b", "h1"), ("d", "h2")] ∧
        everySecond.tasks cluttered ["h1", "h2", "h3"] (.ofList [("app", "web")]) =
          .ok (all.filter fun t => t.id ≠ "a") := by
  have hclock : Monotone everySecond.clock := fun _ _ h => Nat.mul_le_mul_right _ h
  have hfault : ∀ i, everySecond.fault i = none := fun _ => rfl
  obtain ⟨all, hfinds, hselected, hall, -, hsame⟩ :=
    tasks_selected hclock hfault fronts ["h1", "h2", "h3"]
  have hcluttered : SameReadable (everySecond.clock 0) ["h1", "h2", "h3"] fronts cluttered := by
    refine (SameReadable.of_set (Nat.le_refl 0) ?_ ?_ none).trans <|
      (SameReadable.of_set (Nat.le_refl 0) ?_ ?_ none).trans <|
        SameReadable.of_delete (Nat.le_refl 0) ?_ <;> decide +kernel
  have hthree : everySecond.tasks fronts ["h1", "h2", "h3"] .empty =
      .ok [(labelled "a" []).observedOn "h1",
        (labelled "b" [("app", "web")]).observedOn "h1",
        (labelled "d" [("app", "web")]).observedOn "h2"] := by
    decide +kernel
  obtain rfl := Except.ok.inj (hall.symm.trans hthree)
  refine ⟨hclock, hfault, _, hfinds, rfl, ?_⟩
  rw [hsame cluttered hcluttered, hselected]
  exact congrArg Except.ok (by decide +kernel)

end Plan

end ControlPlane
