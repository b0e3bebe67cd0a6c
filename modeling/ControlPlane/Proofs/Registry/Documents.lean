import ControlPlane.Proofs.Registry.Keys
import ControlPlane.Proofs.Store.Lasting
import ControlPlane.Proofs.Task
import ControlPlane.Registry

/-!
# Documents of the registry

The registry binds and unbinds tasks by several calls, and any of them may be the last. The two
rules at the end of this file reduce a binding and an unbinding to what they come down to on the
entries: which keys are written or removed, in which order, and what was known when that was
decided. They hold whatever the manifest lists look like. As long as the task documents are in
order, any id may be bound and unbound; but only where every key keeps to the layout does an
unbinding remove one document.

## Main definitions

* `Registry.taskOn?`, `Registry.manifestsOn`: the documents of a machine
* `Registry.Filed`: a store on which every task document is in order
* `Registry.Documented`: a store on which every key is in order as well

## Main results

* `Registry.ensures_createTask_cases`, `Registry.ensures_createTask`,
  `Registry.ensures_deleteTask_under`, `Registry.ensures_deleteTask`
* `Registry.Filed.wrote_task`, `wrote_manifests`, `removed` and `Registry.Documented.wrote_task`,
  `wrote_manifests`, `wrote_controller`, `dropped`: the changes that operations make keep the
  documents in order
-/

namespace ControlPlane.Registry

open Contents ControlPlane.Path Keys Store StoreWork

/-- The task of an id on a machine, as its document says. -/
def taskOn? (c : Contents) (machine id : String) : Option Task :=
  (c.kept? (Keys.task machine id)).bind fun e => (Json.ofText? e.value).bind Task.read

/-- The manifest list of a machine, as its document says. -/
def manifestsOn (c : Contents) (machine : String) : Except Error (List Manifest) :=
  match c.kept? (Keys.manifests machine) with
  | some e => Manifest.decodeList e.value
  | none => .ok []

/-- The first machine that has a document of the task, with the task. -/
def located? (c : Contents) (machines : List String) (id : String) : Option (String × Task) :=
  machines.findSome? fun m => (taskOn? c m id).map fun t => (m, t.observedOn m)

/-- No entry expires, every task document is the document of a task of its id, and no task is on two
of the machines. -/
structure Filed (machines : List String) (c : Contents) : Prop where
  lasting : c.Lasting
  tasks : ∀ m id e, Flat m → c.kept? (Keys.task m id) = some e →
    ∃ t : Task, e.value = t.encode ∧ t.id = id
  alone : ∀ id, ∀ m ∈ machines, ∀ m' ∈ machines, (c.kept? (Keys.task m id)).isSome = true →
    (c.kept? (Keys.task m' id)).isSome = true → m = m'

/-- Every key belongs to the layout, every task document is the document of a task of its id, and no
task is on two of the machines. -/
structure Documented (machines : List String) (c : Contents) : Prop where
  lasting : c.Lasting
  layout : ∀ key, (c.kept? key).isSome = true →
    (∃ m, Flat m ∧ (key = Keys.manifests m ∨ ∃ id, ValidId id ∧ key = Keys.task m id)) ∨
      ∃ id, ValidId id ∧ key = Keys.controller id
  tasks : ∀ m id e, Flat m → c.kept? (Keys.task m id) = some e →
    ∃ t : Task, e.value = t.encode ∧ t.id = id
  alone : ∀ id, ∀ m ∈ machines, ∀ m' ∈ machines, (c.kept? (Keys.task m id)).isSome = true →
    (c.kept? (Keys.task m' id)).isSome = true → m = m'

variable {machines : List String} {machine m id : String} {c d : Contents} {value : String}

/-! ### What is known of a document -/

theorem documented_empty (machines : List String) : Documented machines {} where
  lasting _ _ h := by cases h
  layout _ h := by cases h
  tasks _ _ _ _ h := by cases h
  alone _ _ _ _ _ h := by cases h

theorem Documented.filed (h : Documented machines c) : Filed machines c where
  lasting := h.lasting
  tasks := h.tasks
  alone := h.alone

theorem filed_empty (machines : List String) : Filed machines {} :=
  (documented_empty machines).filed

/-- A task that has a document has a valid id. -/
theorem Documented.validId (h : Documented machines c) (hm : Flat m)
    (hentry : (c.kept? (Keys.task m id)).isSome = true) : ValidId id := by
  obtain ⟨m', hm', hkey | ⟨id', hid', hkey⟩⟩ | ⟨id', -, hkey⟩ := h.layout _ hentry
  · exact absurd hkey (task_ne_manifests hm hm')
  · exact ((task_inj hm hm').mp hkey).2 ▸ hid'
  · exact absurd hkey task_ne_controller

theorem taskOn?_of_kept? {t : Task} {e : Entry} (hentry : c.kept? (Keys.task m id) = some e)
    (hvalue : e.value = t.encode) : taskOn? c m id = some t := by
  rw [taskOn?, hentry, Option.bind_some, hvalue, Task.read_encode]

theorem isSome_kept?_of_taskOn? {t : Task} (h : taskOn? c m id = some t) :
    (c.kept? (Keys.task m id)).isSome = true := by
  obtain ⟨e, he, -⟩ := Option.bind_eq_some_iff.mp h
  exact Option.isSome_iff_exists.mpr ⟨e, he⟩

theorem taskOn?_eq_none (h : c.kept? (Keys.task m id) = none) : taskOn? c m id = none := by
  rw [taskOn?, h]
  rfl

/-- **Every task document can be read.** So a listing leaves none of them out. -/
theorem Filed.exists_taskOn (h : Filed machines c) (hm : Flat m)
    (hentry : (c.kept? (Keys.task m id)).isSome = true) :
    ∃ t : Task, taskOn? c m id = some t ∧ t.id = id := by
  obtain ⟨e, he⟩ := Option.isSome_iff_exists.mp hentry
  obtain ⟨t, hvalue, hid⟩ := h.tasks m id e hm he
  exact ⟨t, taskOn?_of_kept? he hvalue, hid⟩

theorem located?_eq_none (h : Filed machines c) (hflat : ∀ m ∈ machines, Flat m)
    (hlocated : located? c machines id = none) :
    ∀ m ∈ machines, c.kept? (Keys.task m id) = none := by
  intro m hm
  rw [located?, List.findSome?_eq_none_iff] at hlocated
  cases hentry : c.kept? (Keys.task m id) with
  | none => rfl
  | some e =>
    obtain ⟨t, ht, -⟩ := h.exists_taskOn (hflat m hm) (by rw [hentry]; rfl)
    have hnone := hlocated m hm
    rw [ht] at hnone
    cases hnone

theorem located?_eq_some {t : Task} (hlocated : located? c machines id = some (m, t)) :
    m ∈ machines ∧ ∃ t', taskOn? c m id = some t' ∧ t = t'.observedOn m := by
  obtain ⟨m', hm', hmap⟩ := List.exists_of_findSome?_eq_some hlocated
  obtain ⟨t', ht', hpair⟩ := Option.map_eq_some_iff.mp hmap
  cases hpair
  exact ⟨hm', t', ht', rfl⟩

/-! ### The changes of a binding and of an unbinding -/

theorem kept?_task_of_wrote (hm : Flat m) (hmachine : Flat machine)
    (h : c.Wrote d (Keys.manifests machine) value) (id : String) :
    d.kept? (Keys.task m id) = c.kept? (Keys.task m id) := by
  rw [h.kept?, if_neg (task_ne_manifests hm hmachine)]

theorem taskOn?_of_wrote_manifests (hm : Flat m) (hmachine : Flat machine)
    (hw : c.Wrote d (Keys.manifests machine) value) (id : String) :
    taskOn? d m id = taskOn? c m id := by
  rw [taskOn?, taskOn?, kept?_task_of_wrote hm hmachine hw]

/-- The contents differ in the task of one id on one machine only. -/
def SetsTask (machine id : String) (new : Option Task) (c d : Contents) : Prop :=
  ∀ m id', Flat m → taskOn? d m id' = if m = machine ∧ id' = id then new else taskOn? c m id'

theorem setsTask_of_kept? (hmachine : Flat machine) {e? : Option Entry}
    (h : ∀ key, d.kept? key = if key = Keys.task machine id then e? else c.kept? key) :
    SetsTask machine id (e?.bind fun e => (Json.ofText? e.value).bind Task.read) c d := by
  intro m id' hm
  rw [taskOn?, taskOn?, h]
  by_cases heq : m = machine ∧ id' = id
  · rw [if_pos heq, if_pos ((task_inj hm hmachine).mpr heq)]
  · rw [if_neg heq, if_neg (mt (task_inj hm hmachine).mp heq)]

theorem setsTask_of_wrote {t : Task} (hmachine : Flat machine)
    (hw : c.Wrote d (Keys.task machine id) t.encode) : SetsTask machine id (some t) c d := by
  have h := setsTask_of_kept? hmachine hw.kept?
  rwa [Option.bind_some, Task.read_encode] at h

theorem setsTask_of_dropped (hmachine : Flat machine)
    (hd : c.Dropped d (Keys.task machine id)) : SetsTask machine id none c d :=
  setsTask_of_kept? hmachine hd.kept?

/-- The two writes of a binding come to one task more, and change no other. -/
theorem setsTask_of_bound {b : Contents} {t : Task} (hmachine : Flat machine)
    (hw : c.Wrote b (Keys.task machine id) t.encode)
    (hv : b.Wrote d (Keys.manifests machine) value) : SetsTask machine id (some t) c d := by
  intro m id' hm
  rw [taskOn?_of_wrote_manifests hm hmachine hv]
  exact setsTask_of_wrote hmachine hw m id' hm

/-- The two writes of an unbinding come to one task less. -/
theorem setsTask_of_unbound {b : Contents} (hmachine : Flat machine)
    (hw : c.Wrote b (Keys.manifests machine) value)
    (hd : b.Dropped d (Keys.task machine id)) : SetsTask machine id none c d := by
  intro m id' hm
  rw [setsTask_of_dropped hmachine hd m id' hm, taskOn?_of_wrote_manifests hm hmachine hw]

/-- A change that leaves the tasks alone leaves them in order. -/
theorem Filed.frame (h : Filed machines c) (hlasting : d.Lasting)
    (hsame : ∀ m id, Flat m ∨ m ∈ machines →
      d.kept? (Keys.task m id) = c.kept? (Keys.task m id)) :
    Filed machines d where
  lasting := hlasting
  tasks m id e hm hentry := by
    rw [hsame m id (.inl hm)] at hentry
    exact h.tasks m id e hm hentry
  alone id m hm m' hm' hentry hentry' := by
    rw [hsame m id (.inr hm)] at hentry
    rw [hsame m' id (.inr hm')] at hentry'
    exact h.alone id m hm m' hm' hentry hentry'

theorem Filed.wrote_manifests (h : Filed machines c) (hflat : ∀ m ∈ machines, Flat m)
    (hmachine : Flat machine) (hw : c.Wrote d (Keys.manifests machine) value) :
    Filed machines d :=
  h.frame (hw.lasting h.lasting) fun m id hm =>
    kept?_task_of_wrote (hm.elim (fun hm => hm) (hflat m)) hmachine hw id

/-- A task may be written where no machine has it. -/
theorem Filed.wrote_task {t : Task} (h : Filed machines c) (hflat : ∀ m ∈ machines, Flat m)
    (hmachine : Flat machine) (hfree : ∀ m ∈ machines, c.kept? (Keys.task m t.id) = none)
    (hw : c.Wrote d (Keys.task machine t.id) t.encode) : Filed machines d where
  lasting := hw.lasting h.lasting
  tasks m id e hm hentry := by
    rw [hw.kept?] at hentry
    split at hentry
    · rename_i hkey
      obtain rfl := Option.some.inj hentry
      exact ⟨t, rfl, ((task_inj hm hmachine).mp hkey).2.symm⟩
    · exact h.tasks m id e hm hentry
  alone id m hm m' hm' hentry hentry' := by
    simp only [hw.kept?, task_inj (hflat m hm) hmachine, task_inj (hflat m' hm') hmachine]
      at hentry hentry'
    split at hentry
    · rename_i heq
      split at hentry'
      · rename_i heq'
        rw [heq.1, heq'.1]
      · rw [heq.2, hfree m' hm'] at hentry'
        cases hentry'
    · split at hentry'
      · rename_i heq'
        rw [heq'.2, hfree m hm] at hentry
        cases hentry
      · exact h.alone id m hm m' hm' hentry hentry'

/-- Any keys may be removed. What is left was in order before. -/
theorem Filed.removed (h : Filed machines c)
    (hd : ∀ key e, d.kept? key = some e → c.kept? key = some e) : Filed machines d where
  lasting key e he := h.lasting key e (hd key e he)
  tasks m id e hm hentry := h.tasks m id e hm (hd _ e hentry)
  alone id m hm m' hm' hentry hentry' := by
    obtain ⟨e, he⟩ := Option.isSome_iff_exists.mp hentry
    obtain ⟨e', he'⟩ := Option.isSome_iff_exists.mp hentry'
    exact h.alone id m hm m' hm' (by rw [hd _ e he]; rfl) (by rw [hd _ e' he']; rfl)

theorem Documented.wrote_manifests (h : Documented machines c) (hflat : ∀ m ∈ machines, Flat m)
    (hmachine : Flat machine) (hw : c.Wrote d (Keys.manifests machine) value) :
    Documented machines d :=
  { h.filed.wrote_manifests hflat hmachine hw with
    layout := by
      intro key hkey
      by_cases heq : key = Keys.manifests machine
      · exact .inl ⟨machine, hmachine, .inl heq⟩
      · rw [hw.kept?, if_neg heq] at hkey
        exact h.layout key hkey }

theorem Documented.wrote_task {t : Task} (h : Documented machines c)
    (hflat : ∀ m ∈ machines, Flat m) (hmachine : Flat machine) (hid : ValidId t.id)
    (hfree : ∀ m ∈ machines, c.kept? (Keys.task m t.id) = none)
    (hw : c.Wrote d (Keys.task machine t.id) t.encode) : Documented machines d :=
  { h.filed.wrote_task hflat hmachine hfree hw with
    layout := by
      intro key hkey
      by_cases heq : key = Keys.task machine t.id
      · exact .inl ⟨machine, hmachine, .inr ⟨t.id, hid, heq⟩⟩
      · rw [hw.kept?, if_neg heq] at hkey
        exact h.layout key hkey }

theorem Documented.dropped {key : String} (h : Documented machines c) (hd : c.Dropped d key) :
    Documented machines d := by
  have hthere : ∀ k e, d.kept? k = some e → c.kept? k = some e := by
    intro k e he
    rw [hd.kept?] at he
    split at he
    · cases he
    · exact he
  refine { h.filed.removed hthere with layout := fun k hk => ?_ }
  obtain ⟨e, he⟩ := Option.isSome_iff_exists.mp hk
  exact h.layout k (by rw [hthere k e he]; rfl)

theorem Documented.dropped_task (h : Documented machines c)
    (hd : c.Dropped d (Keys.task machine id)) : Documented machines d :=
  h.dropped hd

/-- A controller is written beside the documents of the machines. -/
theorem Documented.wrote_controller (h : Documented machines c) (hid : ValidId id)
    (hw : c.Wrote d (Keys.controller id) value) : Documented machines d :=
  { h.filed.frame (hw.lasting h.lasting) fun _ _ _ => hw.frame _ task_ne_controller with
    layout := by
      intro key hkey
      by_cases heq : key = Keys.controller id
      · exact .inr ⟨id, hid, heq⟩
      · rw [hw.kept?, if_neg heq] at hkey
        exact h.layout key hkey }

/-- Nothing lies under a task, so its recursive removal takes the task alone. -/
theorem Documented.isUnder_task (h : Documented machines c) (hmachine : Flat machine)
    (hid : ValidId id) (key : String) (hkey : (c.kept? key).isSome = true) :
    isUnder (Keys.task machine id) key true = false := by
  obtain ⟨m, hm, rfl | ⟨id', hid', rfl⟩⟩ | ⟨id', -, rfl⟩ := h.layout key hkey
  · exact isUnder_task_manifests hmachine hm id true
  · rw [Bool.eq_false_iff]
    exact fun hunder => not_below_of_flat hid.trimEnd_ne_nil hid'.flat
      ((isUnder_task_task_iff hmachine hm).mp hunder).2
  · exact isUnder_task_controller true

/-! ### The operations -/

variable {failing : Prop} {inv : Store → Prop} {s : Store}

/-- What looking for a task makes of the first document that it finds. -/
def found (machine id text : String) : StoreWork (Option (String × Task)) :=
  match (Json.ofText? text).bind Task.read with
  | some task => return some (machine, task.observedOn machine)
  | none => throw (.malformed ("task " ++ id))

/-- Looking for a task reads machine by machine, and gives what the documents say. -/
theorem ensures_locate? (h : Filed machines s.contents) (hflat : ∀ m ∈ machines, Flat m)
    (hinv : inv s) (id : String) :
    (locate? id machines).run.Ensures (serves failing) inv
      (Saw failing s (located? s.contents machines id)) s := by
  -- the induction runs over a part of the machines, and `Filed` speaks of all of them
  suffices hpart : ∀ part : List String, (∀ m ∈ part, Flat m) →
      (locate? id part).run.Ensures (serves failing) inv
        (Saw failing s (located? s.contents part id)) s from hpart machines hflat
  intro part hpart
  induction part with
  | nil => exact ⟨hinv, rfl, .inl rfl⟩
  | cons m part ih =>
    have hm := hpart m (List.mem_cons_self ..)
    have hfail : failing → ∀ e, Saw failing s (located? s.contents (m :: part) id) (.error e) s :=
      fun hfailing e => ⟨rfl, .inr ⟨hfailing, e, rfl⟩⟩
    refine ensures_bind_of_saw (ensures_get h.lasting hinv) ?_ hfail
    cases hentry : s.contents.kept? (Keys.task m id) with
    | none =>
      have hnext : located? s.contents (m :: part) id = located? s.contents part id := by
        rw [located?, List.findSome?_cons, taskOn?, hentry]
        rfl
      rw [hnext]
      exact ih fun x hx => hpart x (List.mem_cons_of_mem m hx)
    | some e =>
      obtain ⟨t, ht, -⟩ := h.exists_taskOn hm (by rw [hentry]; rfl)
      have hfirst : located? s.contents (m :: part) id = some (m, t.observedOn m) := by
        rw [located?, List.findSome?_cons, ht]
        rfl
      have hread : (Json.ofText? e.value).bind Task.read = some t := by
        rwa [taskOn?, hentry] at ht
      rw [hfirst]
      change (found m id e.value).run.Ensures _ _ _ _
      rw [found, hread]
      exact ⟨hinv, rfl, .inl rfl⟩

theorem ensures_locate (h : Filed machines s.contents) (hflat : ∀ m ∈ machines, Flat m)
    (hinv : inv s) (id : String) :
    (locate machines id).run.Ensures (serves failing) inv
      (fun r t => t = s ∧
        (r = (located? s.contents machines id).elim (.error (.taskNotFound id)) .ok ∨
        failing ∧ ∃ e, r = .error e)) s := by
  refine ensures_bind_of_saw (ensures_locate? h hflat hinv id) ?_ fun hfailing e =>
    ⟨rfl, .inr ⟨hfailing, e, rfl⟩⟩
  cases located? s.contents machines id with
  | some found => exact ⟨hinv, rfl, .inl rfl⟩
  | none => exact ⟨hinv, rfl, .inl rfl⟩

/-- Reading a manifest list gives what its document says. -/
theorem ensures_manifests (h : s.contents.Lasting) (hinv : inv s) (machine : String) :
    (manifests machine).run.Ensures (serves failing) inv
      (fun r t =>
        t = s ∧ (r = manifestsOn s.contents machine ∨ failing ∧ ∃ e, r = .error e)) s := by
  refine ensures_bind_of_saw (ensures_get h hinv) ?_ fun hfailing e =>
    ⟨rfl, .inr ⟨hfailing, e, rfl⟩⟩
  rw [manifestsOn]
  cases hentry : s.contents.kept? (Keys.manifests machine) with
  | none => exact ⟨hinv, rfl, .inl rfl⟩
  | some e => exact ⟨hinv, rfl, .inl rfl⟩

/-- **Binding a task** has no effect where the task is found, the manifest list of its machine
cannot be read or the machine has a document under its key. Otherwise the task is written, and then
the manifest list that was read before with the manifest of the task at its end. -/
theorem ensures_createTask_cases {post : Except Error Unit → Store → Prop} {t : Task}
    (h : Filed machines s.contents) (hflat : ∀ m ∈ machines, Flat m) (hinv : inv s)
    (hfail : failing → ∀ e, post (.error e) s)
    (hexists : ∀ existing found, located? s.contents machines t.id = some (existing, found) →
      post (.error (.taskExists t.id existing)) s)
    (hunread : ∀ e, located? s.contents machines t.id = none →
      manifestsOn s.contents machine = .error e → post (.error e) s)
    (hoccupied : ∀ e, located? s.contents machines t.id = none →
      (s.contents.kept? (Keys.task machine t.id)).isSome = true → post (.error e) s)
    (hbound : ∀ u list, (∀ m ∈ machine :: machines, s.contents.kept? (Keys.task m t.id) = none) →
      manifestsOn s.contents machine = .ok list →
      s.contents.Wrote u.contents (Keys.task machine t.id) (t.boundTo machine).encode →
      inv u ∧ (failing → ∀ e, post (.error e) u) ∧ ∀ v,
        u.contents.Wrote v.contents (Keys.manifests machine)
          (Manifest.encodeList (list ++ [boundManifest t])) →
        inv v ∧ post (.ok ()) v) :
    (createTask machines machine t).run.Ensures (serves failing) inv post s := by
  refine ensures_bind_of_saw (ensures_locate? h hflat hinv t.id) ?_ hfail
  cases hlocated : located? s.contents machines t.id with
  | some found => exact ⟨hinv, hexists found.1 found.2 hlocated⟩
  | none =>
    have hfree := located?_eq_none h hflat hlocated
    refine ensures_bind_of_read (ensures_manifests h.lasting hinv machine) ?_
      (fun e => hunread e hlocated) hfail
    intro list hread
    refine Work.ensures_bind.mpr (ensures_create h.lasting hinv hfail
      (fun e => hoccupied e hlocated) fun u _ hmissing hw => ?_)
    obtain ⟨hinvu, hfailu, hset⟩ := hbound u list
      (List.forall_mem_cons.mpr ⟨hmissing, hfree⟩) hread hw
    refine ⟨hinvu, Work.ensures_bind.mpr (ensures_set (hw.lasting h.lasting) hinvu hfailu ?_)⟩
    exact fun v _ hv => ⟨(hset v hv).1, hset v hv⟩

/-- A binding is refused and has no effect, or it makes its two writes. -/
theorem ensures_createTask {post : Except Error Unit → Store → Prop} {t : Task}
    (h : Filed machines s.contents) (hflat : ∀ m ∈ machines, Flat m) (hinv : inv s)
    (hrefused : ∀ e, post (.error e) s)
    (hbound : ∀ u list, (∀ m ∈ machine :: machines, s.contents.kept? (Keys.task m t.id) = none) →
      manifestsOn s.contents machine = .ok list →
      s.contents.Wrote u.contents (Keys.task machine t.id) (t.boundTo machine).encode →
      inv u ∧ (failing → ∀ e, post (.error e) u) ∧ ∀ v,
        u.contents.Wrote v.contents (Keys.manifests machine)
          (Manifest.encodeList (list ++ [boundManifest t])) →
        inv v ∧ post (.ok ()) v) :
    (createTask machines machine t).run.Ensures (serves failing) inv post s :=
  ensures_createTask_cases h hflat hinv (fun _ => hrefused) (fun _ _ _ => hrefused _)
    (fun _ _ _ => hrefused _) (fun _ _ _ => hrefused _) hbound

/-- **Unbinding a task** has no effect where the task is not found or the manifest list of its
machine cannot be read. Otherwise the list is written without the manifests of the id, and then the
task and all that lies under it is removed. -/
theorem ensures_deleteTask_under {post : Except Error Unit → Store → Prop}
    (h : Filed machines s.contents) (hflat : ∀ m ∈ machines, Flat m) (hinv : inv s)
    (hfail : failing → ∀ e, post (.error e) s)
    (hmissing : located? s.contents machines id = none → post (.error (.taskNotFound id)) s)
    (hunread : ∀ machine t e, located? s.contents machines id = some (machine, t) →
      manifestsOn s.contents machine = .error e → post (.error e) s)
    (hunbound : ∀ machine t u list, located? s.contents machines id = some (machine, t) →
      manifestsOn s.contents machine = .ok list →
      s.contents.Wrote u.contents (Keys.manifests machine)
        (Manifest.encodeList (list.filter (·.id != id))) →
      inv u ∧ (failing → ∀ e, post (.error e) u) ∧ ∀ v,
        u.contents.Cleared v.contents (Keys.task machine id) true → inv v ∧ post (.ok ()) v) :
    (deleteTask machines id).run.Ensures (serves failing) inv post s := by
  refine ensures_bind_of_read (ensures_locate h hflat hinv id) ?_ ?_ hfail
  · rintro ⟨machine, t⟩ hfound
    have hlocated : located? s.contents machines id = some (machine, t) := by
      cases hlocated : located? s.contents machines id with
      | none =>
        rw [hlocated] at hfound
        cases hfound
      | some found =>
        rw [hlocated] at hfound
        exact congrArg some (Except.ok.inj hfound)
    refine ensures_bind_of_read (ensures_manifests h.lasting hinv machine) ?_
      (fun e => hunread machine t e hlocated) hfail
    intro list hread
    refine Work.ensures_bind.mpr (Work.ensures_bind.mpr
      (ensures_set h.lasting hinv hfail fun u _ hw => ?_))
    obtain ⟨hinvu, hfailu, hclear⟩ := hunbound machine t u list hlocated hread hw
    refine ⟨hinvu, hinvu, ensures_delete_under (hw.lasting h.lasting) hinvu ?_ hfailu hclear⟩
    obtain ⟨hmem, t', ht', -⟩ := located?_eq_some hlocated
    rw [kept?_task_of_wrote (hflat machine hmem) (hflat machine hmem) hw]
    exact isSome_kept?_of_taskOn? ht'
  · intro e he
    cases hlocated : located? s.contents machines id with
    | none =>
      rw [hlocated] at he
      obtain rfl := Except.error.inj he
      exact hmissing hlocated
    | some found =>
      rw [hlocated] at he
      cases he

/-- Where every key keeps to the layout, only the task is removed. -/
theorem ensures_deleteTask {post : Except Error Unit → Store → Prop}
    (h : Documented machines s.contents) (hflat : ∀ m ∈ machines, Flat m) (hinv : inv s)
    (hrefused : ∀ e, post (.error e) s)
    (hunbound : ∀ machine ∈ machines, ∀ u list,
      (s.contents.kept? (Keys.task machine id)).isSome = true →
      manifestsOn s.contents machine = .ok list →
      s.contents.Wrote u.contents (Keys.manifests machine)
        (Manifest.encodeList (list.filter (·.id != id))) →
      inv u ∧ (failing → ∀ e, post (.error e) u) ∧ ∀ v,
        u.contents.Dropped v.contents (Keys.task machine id) → inv v ∧ post (.ok ()) v) :
    (deleteTask machines id).run.Ensures (serves failing) inv post s := by
  refine ensures_deleteTask_under h.filed hflat hinv (fun _ => hrefused)
    (fun _ => hrefused _) (fun _ _ _ _ _ => hrefused _) fun machine t u list hlocated hread hw => ?_
  obtain ⟨hmem, t', ht', -⟩ := located?_eq_some hlocated
  have hmachine := hflat machine hmem
  have hentry := isSome_kept?_of_taskOn? ht'
  obtain ⟨hinvu, hfailu, hdrop⟩ := hunbound machine hmem u list hentry hread hw
  refine ⟨hinvu, hfailu, fun v hv => hdrop v (hv.dropped fun _ => ?_)⟩
  exact (h.wrote_manifests hflat hmachine hw).isUnder_task hmachine (h.validId hmachine hentry)

end ControlPlane.Registry
