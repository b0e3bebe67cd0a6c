import ControlPlane.Proofs.Registry.Controllers
import ControlPlane.Proofs.Registry.Unbinding

/-!
# Looking up and listing

A document is looked up by its id and listed by its directory. Nothing is refused on the way in: an
id may be a path, or empty, and the document then has a key of its own and is found under its id as
any other. It does not lie directly in the directory, though, and so no listing knows of it.

Apart from this the two agree. What is listed is what is found under the ids that name one document,
and it is listed as it is found, once; a machine that the settings name twice is gone through twice,
and its tasks are then listed as often.

## Main definitions

* `Request.OnFlat`: requests with machines that name documents, with any ids
* `Registry.Held`: what requests leave

## Main results

* `Registry.Orderly.ensures_request`, `Registry.Held.orderly`: documents stay in order, whatever
  their ids
* `Registry.answer_tasks`, `Registry.answer_controllers`, `Registry.answer_controller`
* `Registry.Filed.count_listed`: how often a task is listed
* `Registry.listings_agree`: what is listed is what is found
* `Registry.listings_miss_paths`: and what is not listed
-/

namespace ControlPlane.Registry

open Contents ControlPlane.Path Keys Store StoreWork

variable {failing : Prop} {machines : List String} {machine m id value : String} {c d : Contents}
  {s : Store}

/-! ### Requests with any ids -/

/-- Requests on machines whose names are parts of keys. Ids are not looked at. -/
def Request.OnFlat : Request → Prop
  | .task op => Registry.OnFlat op
  | .setController _ | .deleteController _ => True

/-- What requests leave that were made one after the other on an empty store, each of them to its
end, successful or not. -/
inductive Held (failing : Prop) (machines : List String) : Store → Prop
  | empty : Held failing machines .empty
  | request {s t : Store} {q : Request} {r : Except Error Unit} :
      Held failing machines s → q.OnFlat →
      Program.Reaches (serves failing) (q.work machines).run s (.done r) t →
      Held failing machines t

theorem Session.held (h : Session failing machines OnFlat s) : Held failing machines s := by
  induction h with
  | empty => exact .empty
  | operation _ hop hrun ih => exact .request (q := .task _) ih hop hrun

theorem orderly_empty (machines : List String) : Orderly machines {} :=
  (governed_empty machines).orderly

theorem Orderly.wrote_manifests (h : Orderly machines c) (hflat : ∀ m ∈ machines, Flat m)
    (hmachine : Flat machine) (hw : c.Wrote d (Keys.manifests machine) value) :
    Orderly machines d :=
  h.of_sameControllers (h.filed.wrote_manifests hflat hmachine hw)
    (sameControllers_of_manifests hw.frame)

/-- No controller lies under a task, so removing a task with everything below it leaves the
controllers as they are. -/
theorem Orderly.cleared (h : Orderly machines c)
    (hd : c.Cleared d (Keys.task machine id) true) : Orderly machines d := by
  refine h.of_sameControllers (h.filed.cleared hd) fun id' => ?_
  rw [hd.kept?, if_neg]
  rintro (heq | hunder)
  · exact task_ne_controller heq.symm
  · rw [isUnder_task_controller, Bool.and_false] at hunder
    cases hunder

/-- One request keeps the documents in order, whatever the ids are. -/
theorem Orderly.ensures_request {q : Request} (h : Orderly machines s.contents)
    (hflat : ∀ m ∈ machines, Flat m) (hq : q.OnFlat) :
    (q.work machines).run.Ensures (serves failing) (fun u => Orderly machines u.contents)
      (fun _ _ => True) s := by
  cases q with
  | task op =>
    cases op with
    | create machine t =>
      refine ensures_createTask h.filed hflat h (fun _ => trivial) fun u list hfree _ hw => ?_
      have hu : Orderly machines u.contents := h.of_sameControllers
        (h.filed.wrote_task (t := t.boundTo machine) hflat hq
          (fun m hm => hfree m (List.mem_cons_of_mem _ hm)) hw) (sameControllers_of_task hw.frame)
      exact ⟨hu, fun _ _ => trivial, fun v hv => ⟨hu.wrote_manifests hflat hq hv, trivial⟩⟩
    | delete id =>
      refine ensures_deleteTask_under h.filed hflat h (fun _ _ => trivial) (fun _ => trivial)
        (fun _ _ _ _ _ => trivial) fun machine t u list hlocated _ hw => ?_
      have hu := h.wrote_manifests hflat (hflat machine (located?_eq_some hlocated).1) hw
      exact ⟨hu, fun _ _ => trivial, fun v hv => ⟨hu.cleared hv, trivial⟩⟩
  | setController x =>
    refine Work.ensures_bind.mpr (ensures_set h.filed.lasting h (fun _ _ => trivial) ?_)
    intro u _ hw
    have hu := h.wrote_controller hw
    exact ⟨hu, hu, trivial⟩
  | deleteController id =>
    refine Work.ensures_bind.mpr (Work.ensures_orNone.mpr
      (ensures_delete_key h.filed.lasting h (fun e => ?_) fun u hd => ?_))
    · -- what does not exist is an error of its own, which has no effect either
      simp only [Work.noneIfAbsent]
      cases e.isNotFound with
      | true => exact ⟨h, trivial⟩
      | false => trivial
    · have hu := h.dropped_controller hd
      exact ⟨hu, hu, trivial⟩

/-- **Documents stay in order,** whatever their ids are. -/
theorem Held.orderly (h : Held failing machines s) (hflat : ∀ m ∈ machines, Flat m) :
    Orderly machines s.contents := by
  induction h with
  | empty => exact orderly_empty machines
  | request _ hq run ih => exact (ih.ensures_request hflat hq).invariant_of_reaches run

/-! ### Asking -/

/-- Work that reads gives what it saw, if no call fails. -/
theorem answer_of_saw {α : Type} {w : StoreWork α} {a : α} (now : Moment)
    (h : w.run.Ensures (serves False) (fun _ => True) (Saw False s a) s) :
    answer now w s = .ok a :=
  answer_eq now (h.mono fun _ _ _ hsaw => hsaw.2.resolve_right And.left)

theorem answer_tasks (h : s.contents.Lasting) (now : Moment) (machines : List String)
    (selector : Labels) :
    answer now (tasks machines selector) s = .ok (selectedOn s.contents machines selector) :=
  answer_of_saw now (ensures_tasks h trivial machines selector)

theorem answer_controllers (h : s.contents.Lasting) (now : Moment) :
    answer now controllers s = .ok (controllersOn s.contents) :=
  answer_of_saw now (ensures_controllers h trivial)

/-- What looking for a controller makes of its document. -/
def controllerIn (id text : String) : StoreWork Controller :=
  match (Json.ofText? text).bind Controller.read with
  | some c => return c
  | none => throw (.malformed ("controller " ++ id))

theorem answer_controller (h : Orderly machines s.contents) (now : Moment) (id : String) :
    answer now (controller id) s =
      (controllerOn? s.contents id).elim (.error (.controllerNotFound id)) .ok := by
  refine answer_eq now (ensures_bind_of_saw (ensures_get h.filed.lasting trivial) ?_
    fun hfailing => hfailing.elim)
  cases hentry : s.contents.kept? (Keys.controller id) with
  | none =>
    rw [controllerOn?, hentry]
    exact ⟨trivial, rfl⟩
  | some e =>
    obtain ⟨x, hx, -⟩ := Registered.exists_controllerOn h.controllers (by rw [hentry]; rfl)
    have hread : (Json.ofText? e.value).bind Controller.read = some x := by
      rwa [controllerOn?, hentry] at hx
    rw [hx]
    change (controllerIn id e.value).run.Ensures _ _ _ _
    rw [controllerIn, hread]
    exact ⟨trivial, rfl⟩

/-- A task is found under its own id only. -/
theorem Filed.id_eq {t : Task} {now : Moment} (h : Filed machines s.contents)
    (hflat : ∀ m ∈ machines, Flat m) (ht : answer now (task machines id) s = .ok t) :
    t.id = id := by
  obtain ⟨hm, t', ht', heq⟩ := located?_eq_some (located?_of_answer h hflat ht)
  obtain ⟨t'', ht'', hid⟩ := h.exists_taskOn (hflat _ hm) (isSome_kept?_of_taskOn? ht')
  obtain rfl := Option.some.inj (ht'.symm.trans ht'')
  rw [heq]
  exact hid

/-! ### Listing -/

theorem selectedOn_empty (c : Contents) (machines : List String) :
    selectedOn c machines .empty = (machines.map (tasksOn c)).flatten :=
  List.filter_eq_self.mpr fun _ _ => rfl

/-- **What is listed on some machine is what is found,** under an id that names one document. -/
theorem Filed.mem_listed_iff (h : Filed machines s.contents) (hflat : ∀ m ∈ machines, Flat m)
    (now : Moment) {t : Task} :
    t ∈ selectedOn s.contents machines .empty ↔
      ∃ id, ValidId id ∧ answer now (task machines id) s = .ok t := by
  rw [selectedOn_empty, ← List.flatMap_def, List.mem_flatMap]
  constructor
  · rintro ⟨m, hm, ht⟩
    obtain ⟨t', hid, ht', rfl⟩ := (h.mem_tasksOn_iff (hflat m hm)).mp ht
    refine ⟨t'.id, hid, ?_⟩
    rw [answer_task h hflat, h.located?_eq_some_iff.mpr ⟨hm, t', ht', rfl⟩]
    rfl
  · rintro ⟨id, hid, ht⟩
    obtain rfl := h.id_eq hflat ht
    obtain ⟨hm, t', ht', heq⟩ := located?_eq_some (located?_of_answer h hflat ht)
    have hid' : t'.id = t.id := by rw [heq]; rfl
    refine ⟨_, hm, (h.mem_tasksOn_iff (hflat _ hm)).mpr ⟨t', hid' ▸ hid, ?_, heq⟩⟩
    rwa [hid']

/-- **A task is listed as often as its machine is named.** -/
theorem Filed.count_listed (h : Filed machines c) (hflat : ∀ m ∈ machines, Flat m) {t : Task}
    (ht : t ∈ selectedOn c machines .empty) :
    (selectedOn c machines .empty).count t = machines.count t.currentState.host := by
  rw [selectedOn_empty] at ht ⊢
  obtain ⟨l, hl, ht⟩ := List.mem_flatten.mp ht
  obtain ⟨m, hm, rfl⟩ := List.mem_map.mp hl
  have hhost : ∀ {m'}, t ∈ tasksOn c m' → t.currentState.host = m' := fun ht' => by
    obtain ⟨t', -, rfl⟩ := List.mem_map.mp ht'
    rfl
  obtain rfl := hhost ht
  have hone : (tasksOn c t.currentState.host).count t = 1 :=
    List.count_eq_one_of_mem (h.nodup_tasksOn (hflat _ hm)).of_map ht
  -- on every other machine it is not listed at all
  have hcount : ∀ m', (tasksOn c m').count t = if m' == t.currentState.host then 1 else 0 := by
    intro m'
    by_cases heq : m' = t.currentState.host
    · rw [heq, hone, if_pos (beq_self_eq_true _)]
    · rw [List.count_eq_zero.mpr fun ht' => heq (hhost ht').symm, if_neg (by simpa using heq)]
  rw [← List.flatMap_def]
  clear * - hcount
  induction machines with
  | nil => rfl
  | cons m' machines ih =>
    rw [List.flatMap_cons, List.count_append, ih, hcount, List.count_cons, Nat.add_comm]

/-- **What is listed is what is found** under ids that name one document, as it is found. It is
listed once, if the machines are pairwise distinct. This holds on every store that was filled by
operations with any ids, whatever has failed on the way there. -/
theorem listings_agree (hflat : ∀ m ∈ machines, Flat m) (hs : Held failing machines s)
    (now : Moment) :
    (∃ listed, answer now (tasks machines .empty) s = .ok listed ∧
      (∀ t, t ∈ listed ↔ ∃ id, ValidId id ∧ answer now (task machines id) s = .ok t) ∧
      (∀ t ∈ listed, listed.count t = machines.count t.currentState.host) ∧
      ∀ id t, answer now (task machines id) s = .ok t → t.id = id) ∧
    ∃ listed, answer now controllers s = .ok listed ∧
      (∀ x, x ∈ listed ↔ ∃ id, ValidId id ∧ answer now (controller id) s = .ok x) ∧
      listed.Nodup ∧ ∀ id x, answer now (controller id) s = .ok x → x.id = id := by
  have h := hs.orderly hflat
  have hcontroller : ∀ id x, answer now (controller id) s = .ok x ↔
      controllerOn? s.contents id = some x := by
    intro id x
    rw [answer_controller h]
    cases controllerOn? s.contents id <;> simp
  refine ⟨⟨_, answer_tasks h.filed.lasting now machines .empty,
    fun t => h.filed.mem_listed_iff hflat now, fun t => h.filed.count_listed hflat,
    fun id t => h.filed.id_eq hflat⟩, _, answer_controllers h.filed.lasting now, fun x => ?_,
    h.nodup_controllersOn, fun id x hx => h.id_eq ((hcontroller id x).mp hx)⟩
  simp only [hcontroller]
  rw [h.mem_controllersOn_iff]
  constructor
  · exact fun hx => ⟨x.id, hx⟩
  · rintro ⟨id, hid, hx⟩
    obtain rfl := h.id_eq hx
    exact ⟨hid, hx⟩

/-- Of the two tasks on the machine, the one whose id is a path is not listed. -/
theorem listings_agree_nested :
    Held False ["h1"] nested ∧ (∃ t, answer 0 (task ["h1"] "a/b") nested = .ok t) ∧
      ∃ listed t, answer 0 (tasks ["h1"] .empty) nested = .ok listed ∧ t ∈ listed ∧ t.id = "a" ∧
        listed.count t = 1 ∧ ∀ t' ∈ listed, t'.id ≠ "a/b" := by
  have hfiled := session_nested.filed flat_h1
  obtain ⟨⟨listed, hlisted, hmem, hcount, hid⟩, -⟩ :=
    listings_agree flat_h1 session_nested.held 0
  obtain ⟨t', ht', -⟩ := answer_nested
  obtain ⟨t, hlocated⟩ := located?_nested "a" (by decide)
  have ht : answer 0 (task ["h1"] "a") nested = .ok t := by
    rw [answer_task hfiled flat_h1, hlocated]
    rfl
  have htmem : t ∈ listed := (hmem t).mpr ⟨"a", ⟨by decide, by decide⟩, ht⟩
  refine ⟨session_nested.held, ⟨t', ht'⟩, listed, t, hlisted, htmem, hid "a" t ht, ?_, ?_⟩
  · obtain ⟨hhost, -⟩ := located?_eq_some (located?_of_answer hfiled flat_h1 ht)
    rw [hcount t htmem, List.mem_singleton.mp hhost]
    decide
  · intro x hx hpath
    obtain ⟨id, hid', hx'⟩ := (hmem x).mp hx
    exact absurd hid'.flat (by rw [← hid id x hx', hpath]; decide)

/-- **A task that is found may be listed nowhere.** -/
theorem listings_miss_paths :
    ¬ ∀ (machines : List String) (s : Store), machines.Nodup → (∀ m ∈ machines, Flat m) →
      Held False machines s → ∀ listed, answer 0 (tasks machines .empty) s = .ok listed →
      ∀ id t, answer 0 (task machines id) s = .ok t → t ∈ listed := by
  intro h
  have hfiled := session_nested.filed flat_h1
  obtain ⟨t, ht, -⟩ := answer_nested
  have hlisted := h ["h1"] nested (List.nodup_singleton _) flat_h1 session_nested.held _
    (answer_tasks hfiled.lasting 0 ["h1"] .empty) "a/b" t ht
  obtain ⟨id, hid, ht'⟩ := (hfiled.mem_listed_iff flat_h1 0).mp hlisted
  obtain rfl : "a/b" = id := (hfiled.id_eq flat_h1 ht).symm.trans (hfiled.id_eq flat_h1 ht')
  exact absurd hid.flat (by decide)

end ControlPlane.Registry
