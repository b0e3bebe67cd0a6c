import ControlPlane.Proofs.Registry.Keys
import ControlPlane.Proofs.Store.Ledger

/-!
# The layout is unambiguous

Every operation of the registry finds its documents by their keys alone, so it may take one document
for another if two share a key, and reach another one if that lies under its own. A `Place` is what
a document is kept for, with the names that its key is built from; the key tells the place as long
as no name contains a slash and no id is empty.

Nothing is said about ids with slashes here. They do lie under one another, as
`Keys.isUnder_task_task_iff` tells, and removing a task then removes others with it.

## Main definitions

* `Keys.Place`: what the registry keeps a document for

## Main results

* `Keys.Place.key_inj`: the key tells the place
* `Keys.Place.covers_task_iff`: what goes with a task
* `Keys.layout_unambiguous`: all about the layout
-/

namespace ControlPlane.Keys

open ControlPlane.Path

/-- What the registry keeps a document for. One type for all three kinds makes one statement of all
the ways in which keys could clash. -/
inductive Place where
  | task (machine id : String)
  | manifests (machine : String)
  | controller (id : String)
deriving DecidableEq

namespace Place

/-- The key of the document. -/
def key : Place → String
  | task machine id => Keys.task machine id
  | manifests machine => Keys.manifests machine
  | controller id => Keys.controller id

/-- No name contains a slash, and no id is empty. -/
def Proper : Place → Prop
  | task machine id => Flat machine ∧ ValidId id
  | manifests machine => Flat machine
  | controller id => ValidId id

variable {p q : Place} {m id : String}

/-- **The key tells the place.** No two documents are ever kept under one key. -/
theorem key_inj (hp : p.Proper) (hq : q.Proper) : p.key = q.key ↔ p = q := by
  cases p with
  | task m id =>
    cases q with
    | task m' id' =>
      rw [task.injEq]
      exact task_inj hp.1 hq.1
    | manifests m' => exact iff_of_false (task_ne_manifests hp.1 hq) nofun
    | controller id' => exact iff_of_false task_ne_controller nofun
  | manifests m =>
    cases q with
    | task m' id' => exact iff_of_false (task_ne_manifests hq.1 hp).symm nofun
    | manifests m' =>
      rw [manifests.injEq]
      exact manifests_inj hp hq
    | controller id' => exact iff_of_false manifests_ne_controller nofun
  | controller id =>
    cases q with
    | task m' id' => exact iff_of_false task_ne_controller.symm nofun
    | manifests m' => exact iff_of_false manifests_ne_controller.symm nofun
    | controller id' =>
      rw [controller.injEq]
      exact controller_inj

theorem inRegistry_key (p : Place) : InRegistry p.key.toList := by
  cases p with
  | task m id =>
    rw [key, toList_task]
    exact inRegistry_lead _
  | manifests m =>
    rw [key, toList_manifests]
    exact inRegistry_lead _
  | controller id =>
    rw [key, toList_controller]
    exact inRegistry_controllersLead _

theorem not_isUnder_eventsDir (container : String) (recursive : Bool) (p : Place) :
    isUnder (eventsDir container) p.key recursive = false := by
  rw [Bool.eq_false_iff]
  intro h
  obtain ⟨rest, hkey, -⟩ := isUnder_iff.mp h
  exact event_append_ne container rest p.inRegistry_key hkey.symm

/-- No document lies under that of a task, since ids have no slash. -/
theorem not_isUnder_task (htask : (task m id).Proper) (hp : p.Proper) :
    isUnder (Keys.task m id) p.key true = false := by
  cases p with
  | task m' id' =>
    rw [Bool.eq_false_iff]
    intro h
    obtain ⟨-, hbelow⟩ := (isUnder_task_task_iff htask.1 hp.1).mp h
    exact not_below_of_flat htask.2.trimEnd_ne_nil hp.2.flat hbelow
  | manifests m' => exact isUnder_task_manifests htask.1 hp id true
  | controller id' => exact isUnder_task_controller true

/-- **What goes with a task:** its own document, and nothing else of the registry. -/
theorem covers_task_iff (htask : (task m id).Proper) (hp : p.Proper) :
    Covers (Keys.task m id) p.key true ↔ p = task m id := by
  have hunder : ¬ LiesUnder (Keys.task m id) p.key true := by
    rw [← isUnder_iff_liesUnder, not_isUnder_task htask hp]
    exact Bool.false_ne_true
  rw [Covers, or_iff_left fun h => hunder h.2]
  exact key_inj hp htask

end Place

/-- **The layout is unambiguous.** A key tells what document it is of; no event has the key of a
document; directly in the directory of a machine there are its tasks and nothing else; and removing
a task, with all that lies under it, removes one document. -/
theorem layout_unambiguous :
    (∀ p q : Place, p.Proper → q.Proper → (p.key = q.key ↔ p = q)) ∧
    (∀ container key recursive, isUnder (eventsDir container) key recursive = true →
      ∀ p : Place, key ≠ p.key) ∧
    (∀ m key, isUnder (tasksDir m) key false = true ↔ ∃ id, ValidId id ∧ key = task m id) ∧
    ∀ m id, (Place.task m id).Proper → ∀ p : Place, p.Proper →
      (Covers (task m id) p.key true ↔ p = .task m id) ∧
      ∀ (c d : Contents) changes, c.delete (task m id) true = .ok ((), changes, d) →
        d.kept? p.key = if p = .task m id then none else c.kept? p.key := by
  refine ⟨fun p q => Place.key_inj, fun container key recursive hunder p heq => ?_,
    fun m key => isUnder_tasksDir_iff, fun m id htask p hp =>
      ⟨Place.covers_task_iff htask hp, fun c d changes hdelete => ?_⟩⟩
  · rw [heq, p.not_isUnder_eventsDir] at hunder
    cases hunder
  · rw [Contents.kept?_of_delete hdelete]
    exact if_congr (Place.covers_task_iff htask hp) rfl rfl

/-- A machine that is called like the directory of its tasks, and a task that is called like the
list: the keys are alike, and still neither document goes with the other. -/
theorem layout_unambiguous_alike :
    let web : Place := .task "tasks" "kubelet"
    let list : Place := .manifests "tasks"
    web.Proper ∧ list.Proper ∧ web.key = "/registry/hosts/tasks/tasks/kubelet" ∧
      list.key = "/registry/hosts/tasks/kubelet" ∧ web.key ≠ list.key ∧
      ¬ Covers web.key list.key true ∧ Covers web.key web.key true := by
  intro web list
  have hweb : web.Proper := ⟨by decide, by decide, by decide⟩
  have hlist : list.Proper := by
    show Flat "tasks"
    decide
  obtain ⟨hkeys, -, -, hcovers⟩ := layout_unambiguous
  refine ⟨hweb, hlist, by decide, by decide, ?_, ?_, ?_⟩
  · exact fun heq => absurd ((hkeys web list hweb hlist).mp heq) (by decide)
  · exact fun hcovered => absurd ((hcovers _ _ hweb list hlist).1.mp hcovered) (by decide)
  · exact (hcovers _ _ hweb web hweb).1.mpr rfl

end ControlPlane.Keys
