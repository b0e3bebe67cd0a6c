import ControlPlane.Proofs.Store.Living
import ControlPlane.Registry

/-!
# Bindings that fail

Binding a task reads, writes the document of the task, and then writes the manifest list of its
machine. There is no way back between the two writes: if the second one fails, the failure is
reported and the document stays. It is found from then on, so that the task cannot be bound again,
but no host will run it.

This is the only trace that a failed binding can leave, on any store, also one whose entries come to
their end while the binding is under way. Where it fails before, or is refused, nothing is changed.

## Main results

* `Registry.asks_locate?`, `Registry.asks_manifests`: what comes before the writes only reads
* `Registry.createTask_failed`: what a failed binding leaves
* `Registry.createTask_leaves_document`: a failed binding that leaves a trace
-/

namespace ControlPlane.Registry

open Store StoreWork

/-! ### Reading first -/

theorem asks_node? (key : String) :
    (node? key).run.Asks (fun c : StoreCall => c.isRead = true) fun _ => True :=
  Work.asks_orNone.mpr
    ((Program.asks_ask (I := storeCalls) (c := StoreCall.get key)).mpr ⟨rfl, fun _ => trivial⟩)

/-- Looking for a task reads a key on one machine after the other. -/
theorem asks_locate? (id : String) (machines : List String) :
    (locate? id machines).run.Asks (fun c : StoreCall => c.isRead = true) fun _ => True := by
  induction machines with
  | nil => trivial
  | cons machine machines ih =>
    refine Work.asks_bind.mpr ((asks_node? _).mono ?_)
    rintro (e | _ | node) -
    · trivial
    · exact ih
    · dsimp only
      cases (Json.ofText? node.value).bind Task.read <;> trivial

theorem asks_manifests (machine : String) :
    (manifests machine).run.Asks (fun c : StoreCall => c.isRead = true) fun _ => True := by
  refine Work.asks_bind.mpr ((asks_node? _).mono ?_)
  rintro (e | _ | node) - <;> trivial

/-! ### The writes -/

variable {latest : Moment} {fails : StoreCall → Prop} {machines : List String} {machine : String}
  {t : Task} {s u : Store}

/-- Work that only reads changes nothing, apart from what expires meanwhile. -/
theorem ensures_unchanged {α : Type} {w : StoreWork α} (h : Unchanged latest s u)
    (hw : w.run.Asks (fun c : StoreCall => c.isRead = true) fun _ => True) :
    w.run.Ensures (falters latest fails) (fun _ => True) (fun _ v => Unchanged latest s v) u := by
  have hkept : w.run.Ensures (falters latest fails) (Unchanged latest s) (fun _ _ => True) u :=
    hw.ensures_kept h fun _ _ _ _ hread hstep h => h.trans (hstep.unchanged_of_isRead hread)
  exact (hkept.mono fun _ _ hv _ => hv).mono_invariant fun _ _ => trivial

/-- What a failed binding leaves: nothing, or the document of the task alone. -/
def LeavesAtMost (latest : Moment) (fails : StoreCall → Prop) (machine : String) (t : Task)
    (s u : Store) : Prop :=
  Unchanged latest s u ∨
    (∃ list, fails (.set (Keys.manifests machine)
      (Manifest.encodeList (list ++ [boundManifest t])) none)) ∧
    Adds latest (Keys.task machine t.id) (t.boundTo machine).encode s u

theorem ensures_createTask_failed (latest : Moment) (fails : StoreCall → Prop)
    (machines : List String) (machine : String) (t : Task) (s : Store) :
    (createTask machines machine t).run.Ensures (falters latest fails) (fun _ => True)
      (fun r u => ∀ e, r = .error e → LeavesAtMost latest fails machine t s u) s := by
  refine Work.Ensures.bind (ensures_unchanged (Unchanged.refl latest s)
    (asks_locate? t.id machines)) ?_ fun _ _ _ hu _ _ => .inl hu
  rintro (_ | ⟨existing, found⟩) u - hu
  · refine Work.Ensures.bind (ensures_unchanged hu (asks_manifests machine)) ?_
      fun _ _ _ hv _ _ => .inl hv
    intro list v _ hv
    refine Work.ensures_bind.mpr ((Program.ensures_ask (I := storeCalls)
      (c := StoreCall.create _ _ none)).mpr ⟨trivial, ?_⟩)
    rintro (_ | node) w hcreate
    · exact ⟨trivial, fun _ _ => .inl (hv.trans hcreate.unchanged_of_error)⟩
    · -- the document is there, and now everything depends on the manifest list
      have hadds := hv.adds (hcreate.adds rfl)
      refine ⟨trivial, Work.ensures_bind.mpr ((Program.ensures_ask (I := storeCalls)
        (c := StoreCall.set _ _ none)).mpr ⟨trivial, ?_⟩)⟩
      rintro (_ | node') x hset
      · obtain ⟨hfails, rfl⟩ := hset.fails_of_set rfl
        exact ⟨trivial, fun _ _ => .inr ⟨⟨list, hfails⟩, hadds⟩⟩
      · exact ⟨trivial, trivial, nofun⟩
  · exact ⟨trivial, fun _ _ => .inl hu⟩

/-- **A failed binding leaves nothing, or the document of the task alone.** Whatever is in a store
before, whichever calls may fail and however much time passes until `latest`, either nothing is
changed, or it was the writing of the manifest list that failed; then the task was not there before,
its document is there now, and nothing else is changed. -/
theorem createTask_failed {e : Error}
    (hrun : Program.Reaches (falters latest fails) (createTask machines machine t).run s
      (.done (.error e)) u) :
    LeavesAtMost latest fails machine t s u :=
  (ensures_createTask_failed latest fails machines machine t s).post_of_reaches hrun e rfl

/-! ### A trace that is left -/

/-- The writes of keys that may be there already. -/
def IsSet (c : StoreCall) : Prop := ∃ key value ttl, c = .set key value ttl

theorem falters_failingSet (c : StoreCall) (s : Store) :
    falters 0 IsSet c s (failingSet c s).1 (failingSet c s).2 := by
  cases c with
  | set key value ttl => exact .failed _ ⟨key, value, ttl, rfl⟩
  | _ => exact .performed 0 (Nat.le_refl 0)

/-- What a binding leaves of an empty store if no manifest list can be written. -/
def halfBound : Store :=
  ((createTask ["h1"] "h1" { id := "web" }).run.run failingSet .empty).2

theorem reaches_halfBound :
    Program.Reaches (falters 0 IsSet) (createTask ["h1"] "h1" { id := "web" }).run .empty
      (.done (.error (.store "unavailable"))) halfBound := by
  have hrun := Program.Reaches.of_run falters_failingSet
    (createTask ["h1"] "h1" { id := "web" }).run .empty
  have herror : ((createTask ["h1"] "h1" { id := "web" }).run.run failingSet .empty).1 =
      .error (.store "unavailable") := by
    decide +kernel
  rwa [herror] at hrun

/-- The document is left, and keeps the task from being bound once the store can be written. -/
theorem createTask_failed_halfBound :
    LeavesAtMost 0 IsSet "h1" { id := "web" } .empty halfBound ∧
      (halfBound.contents.kept? (Keys.task "h1" "web")).isSome = true ∧
      ((createTask ["h1"] "h1" { id := "web" }).run.run (fun c s => s.perform 0 c) halfBound).1 =
        .error (.taskExists "web" "h1") :=
  ⟨createTask_failed reaches_halfBound, by decide +kernel, by decide +kernel⟩

/-- **A failed binding may leave a trace.** The document is there, and no host has been told to run
it. -/
theorem createTask_leaves_document :
    ¬ ∀ (latest : Moment) (fails : StoreCall → Prop) (machines : List String) (machine : String)
      (t : Task) (s u : Store) (e : Error),
      Program.Reaches (falters latest fails) (createTask machines machine t).run s
        (.done (.error e)) u → Unchanged latest s u := by
  intro h
  have hsame := h 0 IsSet ["h1"] "h1" { id := "web" } .empty halfBound _ reaches_halfBound
    (Keys.task "h1" "web")
  have hthere : (halfBound.contents.living? 0 (Keys.task "h1" "web")).isSome = true := by
    decide +kernel
  rw [hsame] at hthere
  cases hthere

end ControlPlane.Registry
