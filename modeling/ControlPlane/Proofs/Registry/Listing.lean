import ControlPlane.Proofs.Registry.Documents
import Mathlib.Data.List.Perm.Subperm
import Mathlib.Data.List.Nodup

/-!
# Listings of tasks

A listing goes through the documents of a directory and leaves out what cannot be read. Where the
documents are in order, nothing is left out: the listing of a machine consists of the tasks with
valid ids that have a document there, and no id comes up twice, neither on one machine nor on two.

The tasks that count for a controller are therefore determined by their ids, and how many there are
is settled by comparing sets of ids; the order of the listing does not matter.

## Main definitions

* `Registry.tasksOn`, `Registry.selectedOn`: what a listing gives
* `Registry.active`: the selected tasks that have not ended
* `Registry.Active`: the ids of these

## Main results

* `Registry.ensures_tasks`: listing gives what the documents say
* `Registry.Filed.mem_tasksOn_iff`, `nodup_tasksOn`: what is listed on a machine
* `Registry.Filed.mem_active_iff`, `nodup_active`: which ids count
* `Registry.SetsTask.active_iff`: and which count after a change
* `Registry.Filed.length_active_le`, `length_active_congr`, `length_active_succ`,
  `length_active_pred`: the ids tell the number
-/

namespace ControlPlane.Registry

open Contents ControlPlane.Path Keys Store StoreWork

/-- The documents directly under a directory that can be read. -/
def documentsIn {α : Type} (c : Contents) (read : Json → Option α) (dir : String) : List α :=
  (c.nodes fun key => isUnder dir key false).filterMap
    fun node => (Json.ofText? node.value).bind read

/-- The tasks of a machine, as far as their documents can be read. -/
def tasksOn (c : Contents) (machine : String) : List Task :=
  (documentsIn c Task.read (tasksDir machine)).map (·.observedOn machine)

/-- The tasks of the machines that a selector selects. -/
def selectedOn (c : Contents) (machines : List String) (selector : Labels) : List Task :=
  (machines.map (tasksOn c)).flatten.filter fun t => selector.Within t.labels

/-- Those that have not ended. -/
def active (c : Contents) (machines : List String) (selector : Labels) : List Task :=
  (selectedOn c machines selector).filter fun t => ¬ t.HasEnded

/-- Whether a task of the id has a document on one of the machines, is selected and has not
ended. -/
def Active (c : Contents) (machines : List String) (selector : Labels) (id : String) : Prop :=
  ∃ m ∈ machines, ∃ t, taskOn? c m id = some t ∧ selector.Within t.labels ∧ ¬ t.HasEnded

variable {machines : List String} {machine m id : String} {c d : Contents} {selector : Labels}
  {failing : Prop} {inv : Store → Prop} {s : Store}

/-! ### Listing -/

theorem getD_listing? (nodes : List Node) : (listing? nodes).getD [] = nodes := by
  cases nodes <;> rfl

theorem ensures_documents {α : Type} (h : s.contents.Lasting) (hinv : inv s)
    (read : Json → Option α) (dir : String) :
    (documents read dir).run.Ensures (serves failing) inv
      (Saw failing s (documentsIn s.contents read dir)) s := by
  refine ensures_bind_of_saw (ensures_list h hinv) ?_ fun hfailing e =>
    ⟨rfl, .inr ⟨hfailing, e, rfl⟩⟩
  refine ⟨hinv, rfl, .inl (congrArg Except.ok ?_)⟩
  exact congrArg (List.filterMap _) (getD_listing? _)

theorem ensures_machineTasks (h : s.contents.Lasting) (hinv : inv s) (machine : String) :
    (machineTasks machine).run.Ensures (serves failing) inv
      (Saw failing s (tasksOn s.contents machine)) s :=
  ensures_bind_of_saw (ensures_documents h hinv Task.read (tasksDir machine))
    ⟨hinv, rfl, .inl rfl⟩ fun hfailing e => ⟨rfl, .inr ⟨hfailing, e, rfl⟩⟩

/-- Reading one list after the other gives the list of what they give. -/
theorem ensures_mapM {α β : Type} {f : α → StoreWork β} {g : α → β} (hinv : inv s)
    (h : ∀ a, (f a).run.Ensures (serves failing) inv (Saw failing s (g a)) s) (l : List α) :
    (l.mapM f).run.Ensures (serves failing) inv (Saw failing s (l.map g)) s := by
  have hfail : failing → ∀ e, Saw failing s (l.map g) (.error e) s :=
    fun hfailing e => ⟨rfl, .inr ⟨hfailing, e, rfl⟩⟩
  induction l with
  | nil => exact ⟨hinv, rfl, .inl rfl⟩
  | cons a l ih =>
    rw [List.mapM_cons]
    refine ensures_bind_of_saw (h a) ?_ hfail
    exact ensures_bind_of_saw (ih fun hfailing e => ⟨rfl, .inr ⟨hfailing, e, rfl⟩⟩)
      ⟨hinv, rfl, .inl rfl⟩ hfail

/-- **Listing gives what the documents say,** or fails. -/
theorem ensures_tasks (h : s.contents.Lasting) (hinv : inv s) (machines : List String)
    (selector : Labels) :
    (tasks machines selector).run.Ensures (serves failing) inv
      (Saw failing s (selectedOn s.contents machines selector)) s :=
  ensures_bind_of_saw (ensures_mapM hinv (fun m => ensures_machineTasks h hinv m) machines)
    ⟨hinv, rfl, .inl (congrArg Except.ok (filter_within selector _).symm)⟩
    fun hfailing e => ⟨rfl, .inr ⟨hfailing, e, rfl⟩⟩

/-! ### What is listed on a machine -/

/-- A node in the directory of a machine is the document of the task that is read from it. -/
theorem Filed.taskOn?_of_node (h : Filed machines c) (hm : Flat m) {node : Node} {t : Task}
    (hnode : node ∈ c.nodes fun key => isUnder (tasksDir m) key false)
    (ht : (Json.ofText? node.value).bind Task.read = some t) :
    ValidId t.id ∧ node.key = Keys.task m t.id ∧ taskOn? c m t.id = some t := by
  obtain ⟨e, hentry, hunder, hvalue⟩ := mem_nodes_iff.mp hnode
  obtain ⟨id, hid, hkey⟩ := isUnder_tasksDir_iff.mp hunder
  rw [hkey] at hentry
  have htask : taskOn? c m id = some t := by
    rw [taskOn?, hentry, Option.bind_some, ← ht, hvalue]
    rfl
  obtain ⟨t', ht', rfl⟩ := h.exists_taskOn hm (by rw [hentry]; rfl)
  obtain rfl : t = t' := Option.some.inj (htask.symm.trans ht')
  exact ⟨hid, hkey, htask⟩

/-- **The listing of a machine consists of the tasks that have a document there,** as far as their
ids are valid: other documents do not lie directly in the directory. -/
theorem Filed.mem_tasksOn_iff (h : Filed machines c) (hm : Flat m) {t : Task} :
    t ∈ tasksOn c m ↔
      ∃ t', ValidId t'.id ∧ taskOn? c m t'.id = some t' ∧ t = t'.observedOn m := by
  rw [tasksOn, List.mem_map]
  refine exists_congr fun t' => ?_
  rw [documentsIn, List.mem_filterMap, ← and_assoc]
  refine and_congr ?_ eq_comm
  constructor
  · rintro ⟨node, hnode, ht'⟩
    obtain ⟨hid, -, htask⟩ := h.taskOn?_of_node hm hnode ht'
    exact ⟨hid, htask⟩
  · rintro ⟨hid, ht'⟩
    obtain ⟨e, hentry, hread⟩ := Option.bind_eq_some_iff.mp ht'
    exact ⟨e.toNode (Keys.task m t'.id), mem_nodes_iff.mpr
      ⟨e, hentry, isUnder_tasksDir_iff.mpr ⟨t'.id, hid, rfl⟩, rfl⟩, hread⟩

/-- Where every key keeps to the layout, all ids are valid. -/
theorem Documented.mem_tasksOn_iff (h : Documented machines c) (hm : Flat m) {t : Task} :
    t ∈ tasksOn c m ↔ ∃ t', taskOn? c m t'.id = some t' ∧ t = t'.observedOn m := by
  rw [h.filed.mem_tasksOn_iff hm]
  refine exists_congr fun t' => and_iff_right_of_imp ?_
  rintro ⟨ht', -⟩
  exact h.validId hm (isSome_kept?_of_taskOn? ht')

/-- No id comes up twice on a machine, since each has one key there. -/
theorem Filed.nodup_tasksOn (h : Filed machines c) (hm : Flat m) :
    ((tasksOn c m).map Task.id).Nodup := by
  refine List.pairwise_map.mpr (List.pairwise_map.mpr (List.pairwise_filterMap.mpr ?_))
  refine (pairwise_nodes c _).imp_of_mem fun hnode hnode' hkeys t ht t' ht' hid => hkeys ?_
  rw [(h.taskOn?_of_node hm hnode ht).2.1, (h.taskOn?_of_node hm hnode' ht').2.1]
  exact congrArg (Keys.task m) hid

/-- **Tasks are counted by their ids.** Where no id comes up twice, and every id comes up in the
other list but for the `extra` ones, that list has at most that many tasks less. -/
theorem length_le_of_ids {l l' : List Task} (hl : (l.map Task.id).Nodup) (extra : List String)
    (hsub : ∀ id ∈ l.map Task.id, id ∈ l'.map Task.id ∨ id ∈ extra) :
    l.length ≤ l'.length + extra.length := by
  have hsubset : l.map Task.id ⊆ l'.map Task.id ++ extra :=
    fun id hid => List.mem_append.mpr (hsub id hid)
  have hle := (List.subperm_of_subset hl hsubset).length_le
  rwa [List.length_append, List.length_map, List.length_map] at hle

/-- A listing is longer than another one by tasks that are not in the other one only. -/
theorem Filed.length_tasksOn_le (hd : Filed machines d) (hm : Flat m) (extra : List String)
    (hsub : ∀ t ∈ tasksOn d m, t ∈ tasksOn c m ∨ t.id ∈ extra) :
    (tasksOn d m).length ≤ (tasksOn c m).length + extra.length := by
  refine length_le_of_ids (hd.nodup_tasksOn hm) extra fun id hid => ?_
  obtain ⟨t, ht, rfl⟩ := List.mem_map.mp hid
  exact (hsub t ht).imp_left fun hold => List.mem_map_of_mem hold

/-! ### What counts -/

/-- Where a task was listed does not change whether it has ended. -/
theorem hasEnded_observedOn (t : Task) (machine : String) :
    (t.observedOn machine).HasEnded ↔ t.HasEnded := .rfl

/-- No id comes up twice on different machines either. -/
theorem Filed.nodup_flatten (h : Filed machines c) (hflat : ∀ m ∈ machines, Flat m)
    (hmachines : machines.Nodup) : ((machines.map (tasksOn c)).flatten.map Task.id).Nodup := by
  rw [← List.flatMap_def, List.map_flatMap, List.nodup_flatMap]
  refine ⟨fun m hm => h.nodup_tasksOn (hflat m hm),
    hmachines.imp_of_mem fun hm hm' hne id hid hid' => ?_⟩
  have hentry : ∀ {m}, m ∈ machines → id ∈ (tasksOn c m).map Task.id →
      (c.kept? (Keys.task m id)).isSome = true := by
    intro m hm hid
    obtain ⟨t, ht, rfl⟩ := List.mem_map.mp hid
    obtain ⟨t', -, ht', rfl⟩ := (h.mem_tasksOn_iff (hflat m hm)).mp ht
    exact isSome_kept?_of_taskOn? ht'
  exact hne (h.alone id _ hm _ hm' (hentry hm hid) (hentry hm' hid'))

theorem Filed.nodup_active (h : Filed machines c) (hflat : ∀ m ∈ machines, Flat m)
    (hmachines : machines.Nodup) (selector : Labels) :
    ((active c machines selector).map Task.id).Nodup := by
  refine (h.nodup_flatten hflat hmachines).sublist (List.Sublist.map _ ?_)
  exact List.filter_sublist.trans List.filter_sublist

/-- **The ids of the tasks that count** are those under which a task counts, as far as they are
valid. -/
theorem Filed.mem_active_iff (h : Filed machines c) (hflat : ∀ m ∈ machines, Flat m) :
    id ∈ (active c machines selector).map Task.id ↔
      ValidId id ∧ Active c machines selector id := by
  simp only [active, selectedOn, List.mem_map, List.mem_filter, List.mem_flatten]
  constructor
  · rintro ⟨t, ⟨⟨⟨_, ⟨m, hm, rfl⟩, ht⟩, hselected⟩, hlive⟩, rfl⟩
    obtain ⟨t', hid, ht', rfl⟩ := (h.mem_tasksOn_iff (hflat m hm)).mp ht
    exact ⟨hid, m, hm, t', ht', of_decide_eq_true hselected,
      by rwa [decide_eq_true_iff, hasEnded_observedOn] at hlive⟩
  · rintro ⟨hvalid, m, hm, t, ht, hselected, hlive⟩
    have hid : t.id = id := by
      obtain ⟨t', ht', hid⟩ := h.exists_taskOn (hflat m hm) (isSome_kept?_of_taskOn? ht)
      rwa [Option.some.inj (ht.symm.trans ht')]
    subst hid
    exact ⟨t.observedOn m, ⟨⟨⟨_, ⟨m, hm, rfl⟩,
      (h.mem_tasksOn_iff (hflat m hm)).mpr ⟨t, hvalid, ht, rfl⟩⟩, decide_eq_true hselected⟩,
      by rwa [decide_eq_true_iff, hasEnded_observedOn]⟩, rfl⟩

/-- Where every key keeps to the layout, all of them are valid. -/
theorem Documented.mem_active_iff (h : Documented machines c) (hflat : ∀ m ∈ machines, Flat m) :
    id ∈ (active c machines selector).map Task.id ↔ Active c machines selector id := by
  rw [h.filed.mem_active_iff hflat, and_iff_right_of_imp]
  rintro ⟨m, hm, t, ht, -⟩
  exact h.validId (hflat m hm) (isSome_kept?_of_taskOn? ht)

/-- The first of the tasks that count are different tasks that count. -/
theorem Filed.take_active (h : Filed machines c) (hflat : ∀ m ∈ machines, Flat m)
    (hmachines : machines.Nodup) (selector : Labels) (n : Nat) :
    (((active c machines selector).take n).map Task.id).Nodup ∧
      ∀ t ∈ (active c machines selector).take n,
        ValidId t.id ∧ Active c machines selector t.id := by
  refine ⟨(h.nodup_active hflat hmachines _).sublist ((List.take_sublist ..).map Task.id), ?_⟩
  exact fun t ht => (h.mem_active_iff hflat).mp (List.mem_map_of_mem (List.mem_of_mem_take ht))

/-- **Which ids count after a task was set.** No other machine may have had a task of that id. -/
theorem SetsTask.active_iff {new : Option Task} (h : SetsTask machine id new c d)
    (hmachine : machine ∈ machines) (hflat : ∀ m ∈ machines, Flat m)
    (halone : ∀ m ∈ machines, m ≠ machine → taskOn? c m id = none) (id' : String) :
    Active d machines selector id' ↔
      (id' = id ∧ ∃ t, new = some t ∧ selector.Within t.labels ∧ ¬ t.HasEnded) ∨
        (id' ≠ id ∧ Active c machines selector id') := by
  constructor
  · rintro ⟨m, hm, t, ht, hcounts⟩
    rw [h m id' (hflat m hm)] at ht
    split at ht
    · rename_i heq
      exact .inl ⟨heq.2, t, ht, hcounts⟩
    · rename_i hother
      refine .inr ⟨?_, m, hm, t, ht, hcounts⟩
      rintro rfl
      rw [halone m hm fun heq => hother ⟨heq, rfl⟩] at ht
      cases ht
  · rintro (⟨rfl, t, ht, hcounts⟩ | ⟨hne, m, hm, t, ht, hcounts⟩)
    · refine ⟨machine, hmachine, t, ?_, hcounts⟩
      rw [h machine id' (hflat machine hmachine), if_pos ⟨rfl, rfl⟩, ht]
    · refine ⟨m, hm, t, ?_, hcounts⟩
      rw [h m id' (hflat m hm), if_neg fun heq => hne heq.2, ht]

/-- **Fewer ids, fewer tasks.** Where every valid id that counts in `c` counts in `d`, but for the
`extra` ones, `d` has at most that many tasks less. -/
theorem Filed.length_active_le (h : Filed machines c) (hd : Filed machines d)
    (hflat : ∀ m ∈ machines, Flat m) (hmachines : machines.Nodup) (selector : Labels)
    (extra : List String)
    (hsub : ∀ id, ValidId id → Active c machines selector id →
      Active d machines selector id ∨ id ∈ extra) :
    (active c machines selector).length ≤ (active d machines selector).length + extra.length := by
  refine length_le_of_ids (h.nodup_active hflat hmachines selector) extra fun id hid => ?_
  obtain ⟨hvalid, hactive⟩ := (h.mem_active_iff hflat).mp hid
  refine (hsub id hvalid hactive).imp_left fun hd' => ?_
  exact (hd.mem_active_iff hflat).mpr ⟨hvalid, hd'⟩

/-- **The same ids, the same number.** Lists are compared by their ids, as nothing else of a task
has to be looked at. -/
theorem Filed.length_active_congr (h : Filed machines c) (hd : Filed machines d)
    (hflat : ∀ m ∈ machines, Flat m) (hmachines : machines.Nodup)
    (hsame : ∀ id, ValidId id → (Active c machines selector id ↔ Active d machines selector id)) :
    (active c machines selector).length = (active d machines selector).length := by
  refine Nat.le_antisymm ?_ ?_
  · exact h.length_active_le hd hflat hmachines selector []
      fun id hid hactive => .inl ((hsame id hid).mp hactive)
  · exact hd.length_active_le h hflat hmachines selector []
      fun id hid hactive => .inl ((hsame id hid).mpr hactive)

/-- **One id more, one task more.** This is how a creation is counted. -/
theorem Filed.length_active_succ (h : Filed machines c) (hd : Filed machines d)
    (hflat : ∀ m ∈ machines, Flat m) (hmachines : machines.Nodup) (hid : ValidId id)
    (hnew : ¬ Active c machines selector id)
    (hids : ∀ id', ValidId id' →
      (Active d machines selector id' ↔ id' = id ∨ Active c machines selector id')) :
    (active d machines selector).length = (active c machines selector).length + 1 := by
  have hnodup : (id :: (active c machines selector).map Task.id).Nodup :=
    List.nodup_cons.mpr ⟨fun hmem => hnew ((h.mem_active_iff hflat).mp hmem).2,
      h.nodup_active hflat hmachines selector⟩
  have hperm : ((active d machines selector).map Task.id).Perm
      (id :: (active c machines selector).map Task.id) := by
    refine (List.perm_ext_iff_of_nodup (hd.nodup_active hflat hmachines selector) hnodup).mpr
      fun id' => ?_
    rw [hd.mem_active_iff hflat, List.mem_cons, h.mem_active_iff hflat]
    constructor
    · rintro ⟨hid', hactive⟩
      exact ((hids id' hid').mp hactive).imp_right fun hold => ⟨hid', hold⟩
    · rintro (rfl | ⟨hid', hold⟩)
      · exact ⟨hid, (hids id' hid).mpr (.inl rfl)⟩
      · exact ⟨hid', (hids id' hid').mpr (.inr hold)⟩
  simpa using hperm.length_eq

/-- **One id less, one task less.** This is how a deletion is counted. -/
theorem Filed.length_active_pred (h : Filed machines c) (hd : Filed machines d)
    (hflat : ∀ m ∈ machines, Flat m) (hmachines : machines.Nodup) (hid : ValidId id)
    (hactive : Active c machines selector id)
    (hids : ∀ id', ValidId id' →
      (Active d machines selector id' ↔ id' ≠ id ∧ Active c machines selector id')) :
    (active c machines selector).length = (active d machines selector).length + 1 := by
  have hgone : ¬ Active d machines selector id := fun hd' => ((hids id hid).mp hd').1 rfl
  refine hd.length_active_succ h hflat hmachines hid hgone fun id' hid' => ?_
  rw [hids id' hid']
  by_cases heq : id' = id
  · simp [heq, hactive]
  · simp [heq]

end ControlPlane.Registry
