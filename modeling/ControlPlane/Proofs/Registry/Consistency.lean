import ControlPlane.Proofs.Manifest.Listing
import ControlPlane.Proofs.Registry.Session
import Mathlib.Data.List.Nodup

/-!
# Tasks and manifest lists stay consistent

Binding and unbinding write two documents each, one after the other, and the store may fail in
between. What survives every failure is one direction: a manifest in a list has its task document.
This is why a task is written before its manifest and removed after it. The other direction holds
where nothing failed.

The invariant says more than what is wanted of it. That the ids of a list are pairwise distinct does
not survive an append by itself; it does together with the order in which the task documents were
written, because a document that is written later has a larger index and a document is written only
where there is none.

## Main definitions

* `Registry.Consistent`, `Registry.Complete`: what is promised, with and without failures
* `Registry.Legible`: the operations of which this holds
* `Registry.Sound`: the invariant

## Main results

* `Registry.sessions_consistent`
-/

namespace ControlPlane.Registry

open Contents ControlPlane.Path Keys Store StoreWork

/-- The index of the change that wrote the document of a task. -/
def createdAt (c : Contents) (machine id : String) : Nat :=
  ((c.kept? (Keys.task machine id)).map Entry.index).getD 0

/-- The documents of each machine fit together: an id has a document on one machine at most, the ids
of a manifest list are pairwise distinct, and each of its manifests has a task document of its id on
that machine. -/
structure Consistent (machines : List String) (c : Contents) : Prop where
  alone : ∀ id, ∀ m ∈ machines, ∀ m' ∈ machines, (c.kept? (Keys.task m id)).isSome = true →
    (c.kept? (Keys.task m' id)).isSome = true → m = m'
  bound : ∀ m ∈ machines, ∃ list, manifestsOn c m = .ok list ∧ (list.map Manifest.id).Nodup ∧
    ∀ x ∈ list, ∃ t, taskOn? c m x.id = some t ∧ t.id = x.id

/-- Nothing is missing either: each task document has exactly one manifest in the list of its
machine, with the containers that the task wants, and the list is in the order in which the task
documents were written. -/
def Complete (machines : List String) (c : Contents) : Prop :=
  ∀ m ∈ machines, ∃ list, manifestsOn c m = .ok list ∧
    (list.Pairwise fun x y => createdAt c m x.id < createdAt c m y.id) ∧
    ∀ id, (c.kept? (Keys.task m id)).isSome = true → ∃ t x, taskOn? c m id = some t ∧
      list.filter (·.id == id) = [x] ∧ x.containers = t.desiredState.manifest.containers

/-- Tasks that may be bound: on one of the machines, under an id that names one document, and with a
manifest without the characters that JSON leaves alone and YAML does not. Any id may be unbound. -/
def Legible (machines : List String) : Operation → Prop
  | .create machine t => machine ∈ machines ∧ ValidId t.id ∧ (boundManifest t).All Yaml.Clean
  | .delete _ => True

/-! ### The invariant -/

/-- A manifest list of a machine that fits to the tasks of the machine. -/
structure Listed (c : Contents) (machine : String) (list : List Manifest) : Prop where
  read : manifestsOn c machine = .ok list
  clean : ∀ x ∈ list, x.All Yaml.Clean
  bound : ∀ x ∈ list, ∃ t, taskOn? c machine x.id = some t ∧ boundManifest t = x
  ordered : list.Pairwise fun x y => createdAt c machine x.id < createdAt c machine y.id

/-- The documents are in order, no entry is from the future, and every manifest list fits to the
tasks of its machine. -/
structure Sound (machines : List String) (c : Contents) : Prop where
  documented : Documented machines c
  dated : ∀ key e, c.kept? key = some e → e.index ≤ c.index
  listed : ∀ m ∈ machines, ∃ list, Listed c m list

/-- Every task has a manifest. It may fail to hold after a failure, since a manifest goes before its
task and comes behind it. -/
def Full (machines : List String) (c : Contents) : Prop :=
  ∀ m ∈ machines, ∀ list, manifestsOn c m = .ok list → ∀ id,
    (c.kept? (Keys.task m id)).isSome = true → ∃ x ∈ list, x.id = id

variable {machines : List String} {machine m id value : String} {c d : Contents}
  {list : List Manifest}

theorem Listed.unique {list' : List Manifest} (h : Listed c m list)
    (hread : manifestsOn c m = .ok list') : list' = list :=
  Except.ok.inj (hread.symm.trans h.read)

/-- The ids of a list are pairwise distinct, because their tasks were written at different times. -/
theorem Listed.nodup (h : Listed c m list) : (list.map Manifest.id).Nodup := by
  refine List.pairwise_map.mpr (h.ordered.imp fun hlt heq => ?_)
  rw [heq] at hlt
  exact Nat.lt_irrefl _ hlt

theorem Listed.kept?_isSome (h : Listed c m list) {x : Manifest} (hx : x ∈ list) :
    (c.kept? (Keys.task m x.id)).isSome = true := by
  obtain ⟨t, ht, -⟩ := h.bound x hx
  exact isSome_kept?_of_taskOn? ht

/-- A list fits as long as neither it nor a task of it is changed. -/
theorem Listed.frame (h : Listed c m list)
    (hlist : d.kept? (Keys.manifests m) = c.kept? (Keys.manifests m))
    (htasks : ∀ x ∈ list, d.kept? (Keys.task m x.id) = c.kept? (Keys.task m x.id)) :
    Listed d m list where
  read := by
    rw [manifestsOn, hlist]
    exact h.read
  clean := h.clean
  bound x hx := by
    rw [taskOn?, htasks x hx]
    exact h.bound x hx
  ordered := by
    refine h.ordered.imp_of_mem fun hx hy hlt => ?_
    rwa [createdAt, createdAt, htasks _ hx, htasks _ hy]

/-- A list that fits to the tasks is written. -/
theorem Listed.of_wrote (hmachine : Flat machine)
    (hw : c.Wrote d (Keys.manifests machine) (Manifest.encodeList list))
    (hclean : ∀ x ∈ list, x.All Yaml.Clean)
    (hbound : ∀ x ∈ list, ∃ t, taskOn? c machine x.id = some t ∧ boundManifest t = x)
    (hordered : list.Pairwise fun x y => createdAt c machine x.id < createdAt c machine y.id) :
    Listed d machine list where
  read := by
    rw [manifestsOn, hw.kept?, if_pos rfl]
    exact Manifest.decodeList_encodeList hclean
  clean := hclean
  bound x hx := by
    rw [taskOn?, kept?_task_of_wrote hmachine hmachine hw]
    exact hbound x hx
  ordered := by
    refine hordered.imp fun hlt => ?_
    rwa [createdAt, createdAt, kept?_task_of_wrote hmachine hmachine hw,
      kept?_task_of_wrote hmachine hmachine hw]

/-! ### What a change leaves alone -/

/-- The documents of the other machines are the same. -/
def SameElsewhere (machine : String) (c d : Contents) : Prop :=
  ∀ m, Flat m → m ≠ machine → d.kept? (Keys.manifests m) = c.kept? (Keys.manifests m) ∧
    ∀ id, d.kept? (Keys.task m id) = c.kept? (Keys.task m id)

theorem SameElsewhere.trans {e : Contents} (h : SameElsewhere machine c d)
    (h' : SameElsewhere machine d e) : SameElsewhere machine c e :=
  fun m hm hne => ⟨(h' m hm hne).1.trans (h m hm hne).1,
    fun id => ((h' m hm hne).2 id).trans ((h m hm hne).2 id)⟩

theorem sameElsewhere_of_task (hmachine : Flat machine)
    (h : ∀ k, k ≠ Keys.task machine id → d.kept? k = c.kept? k) : SameElsewhere machine c d :=
  fun _ hm hne => ⟨h _ (task_ne_manifests hmachine hm).symm,
    fun _ => h _ fun heq => hne ((task_inj hm hmachine).mp heq).1⟩

theorem sameElsewhere_of_manifests (hmachine : Flat machine)
    (h : ∀ k, k ≠ Keys.manifests machine → d.kept? k = c.kept? k) : SameElsewhere machine c d :=
  fun _ hm hne => ⟨h _ fun heq => hne ((manifests_inj hm hmachine).mp heq),
    fun _ => h _ (task_ne_manifests hm hmachine)⟩

/-- The lists of the other machines go on to fit. -/
theorem Listed.elsewhere (h : Listed c m list) (hm : Flat m) (hne : m ≠ machine)
    (hsame : SameElsewhere machine c d) : Listed d m list :=
  h.frame (hsame m hm hne).1 fun x _ => (hsame m hm hne).2 x.id

/-- A task is written or removed that the list does not know of. -/
theorem Listed.of_task (h : Listed c machine list) (hmachine : Flat machine)
    (hid : ∀ x ∈ list, x.id ≠ id)
    (hchange : ∀ k, k ≠ Keys.task machine id → d.kept? k = c.kept? k) : Listed d machine list :=
  h.frame (hchange _ (task_ne_manifests hmachine hmachine).symm)
    fun x hx => hchange _ fun heq => hid x hx ((task_inj hmachine hmachine).mp heq).2

/-- The list does not know of a task without a document. -/
theorem Listed.id_ne (h : Listed c machine list) (hfree : c.kept? (Keys.task machine id) = none) :
    ∀ x ∈ list, x.id ≠ id := by
  rintro x hx rfl
  have hentry := h.kept?_isSome hx
  rw [hfree] at hentry
  cases hentry

theorem Full.of_sameElsewhere (h : Full machines c) (hflat : ∀ m ∈ machines, Flat m)
    (hsame : SameElsewhere machine c d) (hlist : Listed d machine list)
    (hmachine : ∀ id, (d.kept? (Keys.task machine id)).isSome = true → ∃ x ∈ list, x.id = id) :
    Full machines d := by
  intro m hm other hread id hentry
  by_cases heq : m = machine
  · subst heq
    rw [hlist.unique hread]
    exact hmachine id hentry
  · obtain ⟨hmanifests, htasks⟩ := hsame m (hflat m hm) heq
    rw [manifestsOn, hmanifests] at hread
    rw [htasks] at hentry
    exact h m hm other hread id hentry

/-! ### Steps -/

theorem dated_of_wrote {key : String} (h : ∀ k e, c.kept? k = some e → e.index ≤ c.index)
    (hw : c.Wrote d key value) : ∀ k e, d.kept? k = some e → e.index ≤ d.index := by
  intro k e he
  rw [hw.kept?] at he
  rw [hw.index]
  split at he
  · obtain rfl := Option.some.inj he
    exact Nat.le_refl _
  · exact Nat.le_succ_of_le (h k e he)

/-- The first half of a binding: a task is written, and no list knows of it. -/
theorem Sound.wrote_task {t : Task} (h : Sound machines c) (hflat : ∀ m ∈ machines, Flat m)
    (hmachine : machine ∈ machines) (hid : ValidId t.id)
    (hfree : ∀ m ∈ machines, c.kept? (Keys.task m t.id) = none)
    (hw : c.Wrote d (Keys.task machine t.id) t.encode) : Sound machines d := by
  refine ⟨h.documented.wrote_task hflat (hflat machine hmachine) hid hfree hw,
    dated_of_wrote h.dated hw, fun m hm => ?_⟩
  obtain ⟨list, hlist⟩ := h.listed m hm
  by_cases heq : m = machine
  · subst heq
    exact ⟨list, hlist.of_task (hflat m hm) (hlist.id_ne (hfree m hm)) hw.frame⟩
  · exact ⟨list, hlist.elsewhere (hflat m hm) heq
      (sameElsewhere_of_task (hflat machine hmachine) hw.frame)⟩

/-- Any list that fits may be written, and the tasks have not changed by it. -/
theorem Sound.wrote_manifests (h : Sound machines c) (hflat : ∀ m ∈ machines, Flat m)
    (hmachine : machine ∈ machines)
    (hw : c.Wrote d (Keys.manifests machine) (Manifest.encodeList list))
    (hlist : Listed d machine list) : Sound machines d := by
  refine ⟨h.documented.wrote_manifests hflat (hflat machine hmachine) hw,
    dated_of_wrote h.dated hw, fun m hm => ?_⟩
  by_cases heq : m = machine
  · subst heq
    exact ⟨list, hlist⟩
  · obtain ⟨other, hother⟩ := h.listed m hm
    exact ⟨other, hother.elsewhere (hflat m hm) heq
      (sameElsewhere_of_manifests (hflat machine hmachine) hw.frame)⟩

/-- The second half of an unbinding: a task is removed that no list knows of. -/
theorem Sound.dropped_task (h : Sound machines c) (hflat : ∀ m ∈ machines, Flat m)
    (hmachine : machine ∈ machines) (hlist : Listed d machine list)
    (hd : c.Dropped d (Keys.task machine id)) : Sound machines d := by
  refine ⟨h.documented.dropped_task hd, fun k e he => ?_, fun m hm => ?_⟩
  · rw [hd.kept?] at he
    split at he
    · cases he
    · exact Nat.le_trans (h.dated k e he) hd.index
  · by_cases heq : m = machine
    · subst heq
      exact ⟨list, hlist⟩
    · obtain ⟨other, hother⟩ := h.listed m hm
      exact ⟨other, hother.elsewhere (hflat m hm) heq
        (sameElsewhere_of_task (hflat machine hmachine) hd.frame)⟩

theorem createdAt_le (h : ∀ k e, c.kept? k = some e → e.index ≤ c.index) :
    createdAt c machine id ≤ c.index := by
  rw [createdAt]
  cases hentry : c.kept? (Keys.task machine id) with
  | none => exact Nat.zero_le _
  | some e => exact h _ e hentry

/-- **A task that has just been written goes to the end of the list.** -/
theorem Listed.append {b : Contents} {t : Task} (h : Listed b machine list)
    (hdated : ∀ k e, b.kept? k = some e → e.index ≤ b.index) (hmachine : Flat machine)
    (hfree : b.kept? (Keys.task machine t.id) = none) (hclean : (boundManifest t).All Yaml.Clean)
    (htask : b.Wrote c (Keys.task machine t.id) t.encode)
    (hw : c.Wrote d (Keys.manifests machine) (Manifest.encodeList (list ++ [boundManifest t]))) :
    Listed d machine (list ++ [boundManifest t]) := by
  have hc : Listed c machine list := h.of_task hmachine (h.id_ne hfree) htask.frame
  have hnew : c.kept? (Keys.task machine t.id) = some ⟨t.encode, b.index + 1, none⟩ := by
    rw [htask.kept?, if_pos rfl]
  refine Listed.of_wrote hmachine hw ?_ ?_ ?_
  · exact List.forall_mem_append.mpr ⟨hc.clean, List.forall_mem_singleton.mpr hclean⟩
  · exact List.forall_mem_append.mpr ⟨hc.bound,
      List.forall_mem_singleton.mpr ⟨t, taskOn?_of_kept? hnew rfl, rfl⟩⟩
  · refine List.pairwise_append.mpr ⟨hc.ordered, List.pairwise_singleton .., fun x hx y hy => ?_⟩
    obtain rfl := List.mem_singleton.mp hy
    have hold : createdAt c machine x.id = createdAt b machine x.id := by
      rw [createdAt, createdAt, htask.frame]
      exact fun heq => h.id_ne hfree x hx ((task_inj hmachine hmachine).mp heq).2
    have hlast : createdAt c machine (boundManifest t).id = b.index + 1 := by
      rw [createdAt, show (boundManifest t).id = t.id from rfl, hnew]
      rfl
    rw [hold, hlast]
    exact Nat.lt_succ_of_le (createdAt_le hdated)

/-- A part of the list fits as well, which is what a deletion writes. -/
theorem Listed.filter (h : Listed c machine list) (keep : Manifest → Bool) (hmachine : Flat machine)
    (hw : c.Wrote d (Keys.manifests machine) (Manifest.encodeList (list.filter keep))) :
    Listed d machine (list.filter keep) :=
  Listed.of_wrote hmachine hw (fun x hx => h.clean x (List.mem_of_mem_filter hx))
    (fun x hx => h.bound x (List.mem_of_mem_filter hx)) (h.ordered.filter _)

/-! ### Operations -/

variable {failing : Prop} {s : Store}

/-- What is full stays full if nothing fails. -/
def Keeps (failing : Prop) (machines : List String) (s t : Store) : Prop :=
  ¬ failing → Full machines s.contents → Full machines t.contents

theorem Sound.ensures_createTask {t : Task} (h : Sound machines s.contents)
    (hflat : ∀ m ∈ machines, Flat m) (hmachine : machine ∈ machines) (hid : ValidId t.id)
    (hclean : (boundManifest t).All Yaml.Clean) :
    (createTask machines machine t).run.Ensures (serves failing)
      (fun u => Sound machines u.contents)
      (fun _ u => Keeps failing machines s u) s := by
  have hname := hflat machine hmachine
  refine Registry.ensures_createTask h.documented.filed hflat h
    (fun _ _ hfull => hfull) fun u list hfree hread hw => ?_
  have hu : Sound machines u.contents :=
    h.wrote_task (t := t.boundTo machine) hflat hmachine hid
      (fun m hm => hfree m (List.mem_cons_of_mem _ hm)) hw
  refine ⟨hu, fun hfailing _ hnot => absurd hfailing hnot, fun v hv => ?_⟩
  obtain ⟨list', hlist⟩ := h.listed machine hmachine
  obtain rfl := hlist.unique hread
  have happend : Listed v.contents machine (list ++ [boundManifest t]) :=
    hlist.append (t := t.boundTo machine) h.dated hname (hfree machine (List.mem_cons_self ..))
      hclean hw hv
  refine ⟨hu.wrote_manifests hflat hmachine hv happend, fun _ hfull => ?_⟩
  refine hfull.of_sameElsewhere hflat ((sameElsewhere_of_task hname hw.frame).trans
    (sameElsewhere_of_manifests hname hv.frame)) happend fun id hentry => ?_
  rw [kept?_task_of_wrote hname hname hv] at hentry
  by_cases hnew : id = t.id
  · exact ⟨boundManifest t, List.mem_append_right _ (List.mem_cons_self ..), hnew.symm⟩
  · rw [hw.frame _ fun heq => hnew ((task_inj hname hname).mp heq).2] at hentry
    obtain ⟨x, hx, hxid⟩ := hfull machine hmachine list hread id hentry
    exact ⟨x, List.mem_append_left _ hx, hxid⟩

theorem Sound.ensures_deleteTask (h : Sound machines s.contents) (hflat : ∀ m ∈ machines, Flat m)
    (id : String) :
    (deleteTask machines id).run.Ensures (serves failing) (fun u => Sound machines u.contents)
      (fun _ u => Keeps failing machines s u) s := by
  refine Registry.ensures_deleteTask h.documented hflat h (fun _ _ hfull => hfull)
    fun machine hmachine u list _ hread hw => ?_
  have hname := hflat machine hmachine
  obtain ⟨list', hlist⟩ := h.listed machine hmachine
  obtain rfl := hlist.unique hread
  have hfilter := hlist.filter (·.id != id) hname hw
  have hgone : ∀ x ∈ list.filter (·.id != id), x.id ≠ id := fun x hx =>
    bne_iff_ne.mp (List.mem_filter.mp hx).2
  have hu : Sound machines u.contents := h.wrote_manifests hflat hmachine hw hfilter
  refine ⟨hu, fun hfailing _ hnot => absurd hfailing hnot, fun v hv => ?_⟩
  have hlast : Listed v.contents machine (list.filter (·.id != id)) :=
    hfilter.of_task hname hgone hv.frame
  refine ⟨hu.dropped_task hflat hmachine hlast hv, fun _ hfull => ?_⟩
  refine hfull.of_sameElsewhere hflat ((sameElsewhere_of_manifests hname hw.frame).trans
    (sameElsewhere_of_task hname hv.frame)) hlast fun id' hentry => ?_
  rw [hv.kept?] at hentry
  split at hentry
  · cases hentry
  · rename_i hkey
    rw [kept?_task_of_wrote hname hname hw] at hentry
    obtain ⟨x, hx, rfl⟩ := hfull machine hmachine list hread id' hentry
    refine ⟨x, List.mem_filter.mpr ⟨hx, bne_iff_ne.mpr ?_⟩, rfl⟩
    rintro rfl
    exact hkey rfl

/-- One operation keeps the invariant in every state that it passes through. -/
theorem Sound.ensures_work {op : Operation} (h : Sound machines s.contents)
    (hflat : ∀ m ∈ machines, Flat m) (hop : Legible machines op) :
    (op.work machines).run.Ensures (serves failing) (fun u => Sound machines u.contents)
      (fun _ u => Keeps failing machines s u) s := by
  cases op with
  | create machine t => exact h.ensures_createTask hflat hop.1 hop.2.1 hop.2.2
  | delete id => exact h.ensures_deleteTask hflat id

theorem sound_empty (machines : List String) : Sound machines {} where
  documented := documented_empty machines
  dated _ _ h := by cases h
  listed _ _ := ⟨[], rfl, by simp, by simp, .nil⟩

/-- A whole session keeps the invariant, and leaves every task with its manifest if nothing
failed. -/
theorem Session.sound (h : Session failing machines (Legible machines) s)
    (hflat : ∀ m ∈ machines, Flat m) :
    Sound machines s.contents ∧ (¬ failing → Full machines s.contents) := by
  refine h.induction (fun u => Sound machines u.contents)
    (fun u => ¬ failing → Full machines u.contents) (sound_empty machines) ?_ ?_
  · exact fun _ _ _ _ _ _ hentry => by cases hentry
  · intro u op hu hop hfull
    exact (hu.ensures_work hflat hop).mono fun _ _ _ hkeeps hreliable =>
      hkeeps hreliable (hfull hreliable)

/-! ### What the invariant says -/

theorem Sound.consistent (h : Sound machines c) : Consistent machines c where
  alone := h.documented.alone
  bound m hm := by
    obtain ⟨list, hlist⟩ := h.listed m hm
    refine ⟨list, hlist.read, hlist.nodup, fun x hx => ?_⟩
    obtain ⟨t, ht, hbound⟩ := hlist.bound x hx
    exact ⟨t, ht, congrArg Manifest.id hbound⟩

/-- In a list with pairwise distinct ids a manifest is the only one of its id. -/
theorem filter_id_eq_singleton {x : Manifest} (h : (list.map Manifest.id).Nodup) (hx : x ∈ list) :
    list.filter (·.id == x.id) = [x] := by
  induction list with
  | nil => cases hx
  | cons y list ih =>
    obtain ⟨hhead, hrest⟩ := List.nodup_cons.mp h
    rcases List.mem_cons.mp hx with rfl | hmem
    · have hnone : list.filter (·.id == x.id) = [] := by
        refine List.filter_eq_nil_iff.mpr fun z hz heq => hhead ?_
        exact List.mem_map.mpr ⟨z, hz, beq_iff_eq.mp heq⟩
      rw [List.filter_cons, if_pos (beq_self_eq_true x.id), hnone]
    · have hne : y.id ≠ x.id := fun heq => hhead (List.mem_map.mpr ⟨x, hmem, heq.symm⟩)
      rw [List.filter_cons, if_neg (by simpa using hne), ih hrest hmem]

theorem Sound.complete (h : Sound machines c) (hfull : Full machines c) : Complete machines c := by
  intro m hm
  obtain ⟨list, hlist⟩ := h.listed m hm
  refine ⟨list, hlist.read, hlist.ordered, fun id hentry => ?_⟩
  obtain ⟨x, hx, rfl⟩ := hfull m hm list hlist.read id hentry
  obtain ⟨t, ht, hbound⟩ := hlist.bound x hx
  exact ⟨t, x, ht, filter_id_eq_singleton hlist.nodup hx,
    (congrArg Manifest.containers hbound).symm⟩

/-- **The registry stays consistent.** On a store that starts empty, whatever tasks are bound to the
machines and unbound, and whichever calls of the store fail, the documents of the machines fit
together in every state, also between two calls of an operation. If no call fails, nothing is
missing after each operation either. -/
theorem sessions_consistent (hflat : ∀ m ∈ machines, Flat m) :
    (∀ failing s, Observed failing machines (Legible machines) s → Consistent machines s.contents) ∧
      ∀ s, Session False machines (Legible machines) s →
        Consistent machines s.contents ∧ Complete machines s.contents := by
  refine ⟨fun failing s h => ?_, fun s h => ?_⟩
  · have hsound := h.induction (fun u => Sound machines u.contents) (sound_empty machines)
      fun u op hu hop => (hu.ensures_work hflat hop).mono fun _ _ _ _ => trivial
    exact hsound.consistent
  · obtain ⟨hsound, hfull⟩ := h.sound hflat
    exact ⟨hsound.consistent, hsound.complete (hfull id)⟩

/-- A task on the first of two machines: bound without a failure, and bound with its manifest list
left as it was. -/
theorem sessions_consistent_webTask :
    (∀ m ∈ ["h1", "h2"], Flat m) ∧
    (∃ s, Session False ["h1", "h2"] (Legible ["h1", "h2"]) s ∧
      (s.contents.kept? (Keys.task "h1" "web")).isSome = true ∧
      Consistent ["h1", "h2"] s.contents ∧ Complete ["h1", "h2"] s.contents) ∧
    ∃ s, Observed True ["h1", "h2"] (Legible ["h1", "h2"]) s ∧
      (s.contents.kept? (Keys.task "h1" "web")).isSome = true ∧
      manifestsOn s.contents "h1" = .ok [] ∧ Consistent ["h1", "h2"] s.contents := by
  have hflat : ∀ m ∈ ["h1", "h2"], Flat m := by decide
  have hlegible : Legible ["h1", "h2"] (.create "h1" { id := "web" }) :=
    ⟨by decide, ⟨by decide, by decide⟩, ⟨by decide, fun _ h => by cases h⟩⟩
  have hreliable : ∀ c s, serves False c s (s.perform 0 c).1 (s.perform 0 c).2 :=
    fun _ _ => .performed 0
  have hfailing : ∀ c s, serves True c s (failingSet c s).1 (failingSet c s).2 := by
    intro c s
    cases c with
    | set => exact .failed trivial _ fun _ => rfl
    | _ => exact .performed 0
  have hsession : Session False ["h1", "h2"] (Legible ["h1", "h2"]) _ :=
    .operation .empty hlegible (.of_run hreliable _ _)
  have hobserved : Observed True ["h1", "h2"] (Legible ["h1", "h2"]) _ :=
    ⟨.empty, _, _, .empty, hlegible, .of_run hfailing _ _⟩
  exact ⟨hflat, ⟨_, hsession, by decide +kernel, (sessions_consistent hflat).2 _ hsession⟩,
    _, hobserved, by decide +kernel, by decide +kernel, (sessions_consistent hflat).1 _ _ hobserved⟩

end ControlPlane.Registry
