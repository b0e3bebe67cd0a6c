import ControlPlane.Proofs.Controller
import ControlPlane.Proofs.Registry.Listing
import ControlPlane.Proofs.Registry.Session

/-!
# Controllers in the registry

Controllers are documents beside those of the machines, one under each id, and writing and removing
them is a call each. Binding and unbinding tasks leaves them alone, and the other way round, so the
documents of both stay in order whatever comes after what. The listing of the controllers then
consists of those that have been written and not removed, each once.

## Main definitions

* `Registry.controllerOn?`, `Registry.controllersOn`: the documents of controllers
* `Registry.Registered`: a store on which every controller is found under its own id
* `Registry.Orderly`: a store on which the documents of tasks and controllers are in order
* `Registry.Governed`: a store on which every key is in order as well
* `Registry.Administered`: what a sequence of operations on both leaves

## Main results

* `Registry.Administered.governed`
* `Registry.ensures_controllers`, `Registry.Registered.mem_controllersOn_iff`: what the listing
  gives
* `Registry.Registered.ascending_controllersOn`: and in which order
-/

namespace ControlPlane.Registry

open Contents ControlPlane.Path Keys Store StoreWork

/-- The controller of an id, as its document says. -/
def controllerOn? (c : Contents) (id : String) : Option Controller :=
  (c.kept? (Keys.controller id)).bind fun e => (Json.ofText? e.value).bind Controller.read

/-- The controllers that can be read, in ascending order of their keys. -/
def controllersOn (c : Contents) : List Controller :=
  documentsIn c Controller.read controllersDir

/-- The documents of controllers are the same. It says nothing about tasks, which come and go during
a scan. -/
def SameControllers (c d : Contents) : Prop :=
  ∀ id, d.kept? (Keys.controller id) = c.kept? (Keys.controller id)

/-- Every controller document is that of a controller of its id. -/
def Registered (c : Contents) : Prop :=
  ∀ id e, c.kept? (Keys.controller id) = some e → ∃ x : Controller, e.value = x.encode ∧ x.id = id

/-- The documents of tasks are in order, and every controller document is that of a controller of
its id. -/
structure Orderly (machines : List String) (c : Contents) : Prop where
  filed : Filed machines c
  controllers : ∀ id e, c.kept? (Keys.controller id) = some e →
    ∃ x : Controller, e.value = x.encode ∧ x.id = id

/-- The documents of the machines are in order, and every controller document is that of a
controller of its id. -/
structure Governed (machines : List String) (c : Contents) : Prop where
  documented : Documented machines c
  controllers : ∀ id e, c.kept? (Keys.controller id) = some e →
    ∃ x : Controller, e.value = x.encode ∧ x.id = id

variable {machines : List String} {machine id value : String} {b c d : Contents}
  {failing : Prop} {inv : Store → Prop} {s : Store}

/-! ### What is listed -/

/-- The keys of controllers are in the order of the ids. -/
theorem controller_lt_iff {id' : String} :
    Keys.controller id < Keys.controller id' ↔ id < id' := by
  show (Keys.controller id).toList < (Keys.controller id').toList ↔ _
  rw [toList_controller, toList_controller, append_lt_append_left_iff]
  exact Iff.rfl

theorem controllerOn?_of_kept? {x : Controller} {e : Entry}
    (hentry : c.kept? (Keys.controller id) = some e) (hvalue : e.value = x.encode) :
    controllerOn? c id = some x := by
  rw [controllerOn?, hentry, Option.bind_some, hvalue, Controller.read_encode]

/-- A controller that has a document has a valid id. -/
theorem Documented.validId_controller (h : Documented machines c)
    (hentry : (c.kept? (Keys.controller id)).isSome = true) : ValidId id := by
  obtain ⟨m, -, hkey | ⟨id', -, hkey⟩⟩ | ⟨id', hid', hkey⟩ := h.layout _ hentry
  · exact absurd hkey.symm manifests_ne_controller
  · exact absurd hkey.symm task_ne_controller
  · exact controller_inj.mp hkey ▸ hid'

theorem Governed.orderly (h : Governed machines c) : Orderly machines c where
  filed := h.documented.filed
  controllers := h.controllers

/-- **Every controller document can be read.** Nothing else is ever written under such a key. -/
theorem Registered.exists_controllerOn (h : Registered c)
    (hentry : (c.kept? (Keys.controller id)).isSome = true) :
    ∃ x : Controller, controllerOn? c id = some x ∧ x.id = id := by
  obtain ⟨e, he⟩ := Option.isSome_iff_exists.mp hentry
  obtain ⟨x, hvalue, hid⟩ := h id e he
  exact ⟨x, controllerOn?_of_kept? he hvalue, hid⟩

/-- A controller is found under its own id only. -/
theorem Registered.id_eq (h : Registered c) {x : Controller} (hx : controllerOn? c id = some x) :
    x.id = id := by
  obtain ⟨e, hentry, -⟩ := Option.bind_eq_some_iff.mp hx
  obtain ⟨x', hx', hid⟩ := h.exists_controllerOn (by rw [hentry]; rfl)
  rwa [Option.some.inj (hx.symm.trans hx')]

theorem ensures_controllers (h : s.contents.Lasting) (hinv : inv s) :
    controllers.run.Ensures (serves failing) inv (Saw failing s (controllersOn s.contents)) s :=
  ensures_documents h hinv Controller.read controllersDir

/-- A node in the directory of the controllers is the document of the controller that is read from
it. -/
theorem Registered.controllerOn?_of_node (h : Registered c) {node : Node} {x : Controller}
    (hnode : node ∈ c.nodes fun key => isUnder controllersDir key false)
    (hx : (Json.ofText? node.value).bind Controller.read = some x) :
    ValidId x.id ∧ node.key = Keys.controller x.id ∧ controllerOn? c x.id = some x := by
  obtain ⟨e, hentry, hunder, hvalue⟩ := mem_nodes_iff.mp hnode
  obtain ⟨id, hid, hkey⟩ := isUnder_controllersDir_iff.mp hunder
  rw [hkey] at hentry
  have hfound : controllerOn? c id = some x := by
    rw [controllerOn?, hentry, Option.bind_some, ← hx, hvalue]
    rfl
  obtain rfl := h.id_eq hfound
  exact ⟨hid, hkey, hfound⟩

/-- **The listing consists of the controllers that have a document,** as far as their ids are
valid. -/
theorem Registered.mem_controllersOn_iff (h : Registered c) {x : Controller} :
    x ∈ controllersOn c ↔ ValidId x.id ∧ controllerOn? c x.id = some x := by
  rw [controllersOn, documentsIn, List.mem_filterMap]
  constructor
  · rintro ⟨node, hnode, hx⟩
    obtain ⟨hid, -, hfound⟩ := h.controllerOn?_of_node hnode hx
    exact ⟨hid, hfound⟩
  · rintro ⟨hid, hx⟩
    obtain ⟨e, hentry, hread⟩ := Option.bind_eq_some_iff.mp hx
    exact ⟨e.toNode (Keys.controller x.id), mem_nodes_iff.mpr
      ⟨e, hentry, isUnder_controllersDir_iff.mpr ⟨x.id, hid, rfl⟩, rfl⟩, hread⟩

/-- **It is in the order of their ids,** as the keys are, so no controller is listed twice. -/
theorem Registered.ascending_controllersOn (h : Registered c) :
    (controllersOn c).Pairwise fun x y => x.id < y.id := by
  refine List.pairwise_filterMap.mpr ((ascending_nodes c _).imp_of_mem ?_)
  intro node node' hnode hnode' hlt x hx x' hx'
  rw [(h.controllerOn?_of_node hnode hx).2.1, (h.controllerOn?_of_node hnode' hx').2.1] at hlt
  exact controller_lt_iff.mp hlt

theorem Registered.nodup_controllersOn (h : Registered c) : (controllersOn c).Nodup := by
  refine h.ascending_controllersOn.imp ?_
  rintro x _ hlt rfl
  exact String.lt_irrefl _ hlt

theorem Orderly.mem_controllersOn_iff (h : Orderly machines c) {x : Controller} :
    x ∈ controllersOn c ↔ ValidId x.id ∧ controllerOn? c x.id = some x :=
  Registered.mem_controllersOn_iff h.controllers

theorem Orderly.nodup_controllersOn (h : Orderly machines c) : (controllersOn c).Nodup :=
  Registered.nodup_controllersOn h.controllers

theorem Orderly.id_eq (h : Orderly machines c) {x : Controller}
    (hx : controllerOn? c id = some x) : x.id = id :=
  Registered.id_eq h.controllers hx

theorem Governed.id_eq (h : Governed machines c) {x : Controller}
    (hx : controllerOn? c id = some x) : x.id = id :=
  h.orderly.id_eq hx

theorem Governed.nodup_controllersOn (h : Governed machines c) : (controllersOn c).Nodup :=
  h.orderly.nodup_controllersOn

/-- Where every key keeps to the layout, all ids are valid. -/
theorem Governed.mem_controllersOn_iff (h : Governed machines c) {x : Controller} :
    x ∈ controllersOn c ↔ controllerOn? c x.id = some x := by
  rw [h.orderly.mem_controllersOn_iff, and_iff_right_of_imp]
  intro hx
  obtain ⟨e, hentry, -⟩ := Option.bind_eq_some_iff.mp hx
  exact h.documented.validId_controller (by rw [hentry]; rfl)

/-- The listing does not change as long as the documents do not. -/
theorem mem_controllersOn_congr (hc : Governed machines c) (hd : Governed machines d)
    (hsame : SameControllers c d) (x : Controller) :
    x ∈ controllersOn d ↔ x ∈ controllersOn c := by
  rw [hd.mem_controllersOn_iff, hc.mem_controllersOn_iff, controllerOn?, controllerOn?, hsame]

/-! ### Changes -/

theorem SameControllers.refl (c : Contents) : SameControllers c c := fun _ => rfl

theorem SameControllers.trans (h : SameControllers b c) (h' : SameControllers c d) :
    SameControllers b d := fun id => (h' id).trans (h id)

theorem sameControllers_of_task (h : ∀ k, k ≠ Keys.task machine id → d.kept? k = c.kept? k) :
    SameControllers c d :=
  fun _ => h _ fun heq => task_ne_controller heq.symm

theorem sameControllers_of_manifests (h : ∀ k, k ≠ Keys.manifests machine → d.kept? k = c.kept? k) :
    SameControllers c d :=
  fun _ => h _ fun heq => manifests_ne_controller heq.symm

theorem Orderly.of_sameControllers (h : Orderly machines c) (hd : Filed machines d)
    (hsame : SameControllers c d) : Orderly machines d where
  filed := hd
  controllers id e hentry := h.controllers id e ((hsame id).symm.trans hentry)

theorem Orderly.wrote_controller {x : Controller} (h : Orderly machines c)
    (hw : c.Wrote d (Keys.controller x.id) x.encode) : Orderly machines d where
  filed := h.filed.frame (hw.lasting h.filed.lasting) fun _ _ _ => hw.frame _ task_ne_controller
  controllers id e hentry := by
    rw [hw.kept?] at hentry
    split at hentry
    · rename_i hkey
      obtain rfl := Option.some.inj hentry
      exact ⟨x, rfl, (controller_inj.mp hkey).symm⟩
    · exact h.controllers id e hentry

theorem Orderly.dropped_controller (h : Orderly machines c)
    (hd : c.Dropped d (Keys.controller id)) : Orderly machines d := by
  have hthere : ∀ k e, d.kept? k = some e → c.kept? k = some e := by
    intro k e he
    rw [hd.kept?] at he
    split at he
    · cases he
    · exact he
  exact ⟨h.filed.removed hthere, fun id' e hentry => h.controllers id' e (hthere _ e hentry)⟩

theorem Governed.of_sameControllers (h : Governed machines c) (hd : Documented machines d)
    (hsame : SameControllers c d) : Governed machines d where
  documented := hd
  controllers := (h.orderly.of_sameControllers hd.filed hsame).controllers

theorem Governed.wrote_controller {x : Controller} (h : Governed machines c) (hid : ValidId x.id)
    (hw : c.Wrote d (Keys.controller x.id) x.encode) : Governed machines d where
  documented := h.documented.wrote_controller hid hw
  controllers := (h.orderly.wrote_controller hw).controllers

theorem Governed.dropped_controller (h : Governed machines c)
    (hd : c.Dropped d (Keys.controller id)) : Governed machines d where
  documented := h.documented.dropped hd
  controllers := (h.orderly.dropped_controller hd).controllers

/-! ### Operations -/

/-- What a sequence of operations consists of. -/
inductive Request where
  | task (op : Operation)
  | setController (x : Controller)
  | deleteController (id : String)

/-- The work of a request. -/
def Request.work (machines : List String) : Request → StoreWork Unit
  | task op => op.work machines
  | setController x => Registry.setController x
  | deleteController id => Registry.deleteController id

/-- Requests with names that are parts of keys. Any id may be removed. -/
def Request.Fits : Request → Prop
  | task op => Proper op
  | setController x => ValidId x.id
  | deleteController _ => True

/-- What operations on tasks and controllers leave that were made one after the other on an empty
store, each of them to its end, successful or not. -/
inductive Administered (failing : Prop) (machines : List String) : Store → Prop
  | empty : Administered failing machines .empty
  | request {s t : Store} {q : Request} {r : Except Error Unit} :
      Administered failing machines s → q.Fits →
      Program.Reaches (serves failing) (q.work machines).run s (.done r) t →
      Administered failing machines t

theorem governed_empty (machines : List String) : Governed machines {} where
  documented := documented_empty machines
  controllers _ _ h := by cases h

/-- **Binding a task** keeps the documents in order wherever it stops. At its end the task is there,
under an id that no machine had. -/
theorem Governed.ensures_createTask {t : Task} (h : Governed machines s.contents)
    (hflat : ∀ m ∈ machines, Flat m) (hmachine : Flat machine) (hid : ValidId t.id) :
    (createTask machines machine t).run.Ensures (serves failing)
      (fun u => Governed machines u.contents)
      (fun r u => r = .ok () → (∀ m ∈ machines, taskOn? s.contents m t.id = none) ∧
        SetsTask machine t.id (some (t.boundTo machine)) s.contents u.contents ∧
        SameControllers s.contents u.contents) s := by
  refine Registry.ensures_createTask h.documented.filed hflat h (fun _ hr => nomatch hr)
    fun u list hfree _ hw => ?_
  have hfree' : ∀ m ∈ machines, s.contents.kept? (Keys.task m t.id) = none :=
    fun m hm => hfree m (List.mem_cons_of_mem _ hm)
  have hu : Governed machines u.contents := h.of_sameControllers
    (h.documented.wrote_task (t := t.boundTo machine) hflat hmachine hid hfree' hw)
    (sameControllers_of_task hw.frame)
  refine ⟨hu, (fun _ _ hr => nomatch hr), fun v hv => ?_⟩
  have hv' : Governed machines v.contents := hu.of_sameControllers
    (hu.documented.wrote_manifests hflat hmachine hv) (sameControllers_of_manifests hv.frame)
  refine ⟨hv', fun _ => ⟨fun m hm => taskOn?_eq_none (hfree' m hm),
    setsTask_of_bound hmachine hw hv, ?_⟩⟩
  exact (sameControllers_of_task hw.frame).trans (sameControllers_of_manifests hv.frame)

/-- **Unbinding a task** keeps the documents in order wherever it stops. At its end the task has
gone from its machine. -/
theorem Governed.ensures_deleteTask (h : Governed machines s.contents)
    (hflat : ∀ m ∈ machines, Flat m) (id : String) :
    (deleteTask machines id).run.Ensures (serves failing)
      (fun u => Governed machines u.contents)
      (fun r u => r = .ok () →
        (∃ machine ∈ machines, (taskOn? s.contents machine id).isSome = true ∧
          SetsTask machine id none s.contents u.contents) ∧
        SameControllers s.contents u.contents) s := by
  refine Registry.ensures_deleteTask h.documented hflat h (fun _ hr => nomatch hr)
    fun machine hmachine u list hentry _ hw => ?_
  have hname := hflat machine hmachine
  have hu : Governed machines u.contents := h.of_sameControllers
    (h.documented.wrote_manifests hflat hname hw) (sameControllers_of_manifests hw.frame)
  refine ⟨hu, (fun _ _ hr => nomatch hr), fun v hv => ?_⟩
  have hv' : Governed machines v.contents :=
    hu.of_sameControllers (hu.documented.dropped_task hv) (sameControllers_of_task hv.frame)
  refine ⟨hv', fun _ => ⟨⟨machine, hmachine, ?_, setsTask_of_unbound hname hw hv⟩, ?_⟩⟩
  · obtain ⟨t, ht, -⟩ := h.documented.filed.exists_taskOn hname hentry
    exact Option.isSome_iff_exists.mpr ⟨t, ht⟩
  · exact (sameControllers_of_manifests hw.frame).trans (sameControllers_of_task hv.frame)

/-- One request keeps the documents in order in every state that it passes through. -/
theorem Governed.ensures_request {q : Request} (h : Governed machines s.contents)
    (hflat : ∀ m ∈ machines, Flat m) (hq : q.Fits) :
    (q.work machines).run.Ensures (serves failing) (fun u => Governed machines u.contents)
      (fun _ _ => True) s := by
  cases q with
  | task op =>
    cases op with
    | create machine t =>
      exact (h.ensures_createTask hflat hq.1 hq.2).mono fun _ _ _ _ => trivial
    | delete id => exact (h.ensures_deleteTask hflat id).mono fun _ _ _ _ => trivial
  | setController x =>
    refine Work.ensures_bind.mpr (ensures_set h.documented.lasting h (fun _ _ => trivial) ?_)
    intro u _ hw
    have hu := h.wrote_controller hq hw
    exact ⟨hu, hu, trivial⟩
  | deleteController id =>
    refine Work.ensures_bind.mpr (Work.ensures_orNone.mpr
      (ensures_delete_key h.documented.lasting h (fun e => ?_) fun u hd => ?_))
    · -- what does not exist is an error of its own, which has no effect either
      simp only [Work.noneIfAbsent]
      cases e.isNotFound with
      | true => exact ⟨h, trivial⟩
      | false => trivial
    · have hu := h.dropped_controller hd
      exact ⟨hu, hu, trivial⟩

/-- **The documents stay in order,** whatever is asked for and whatever fails. -/
theorem Administered.governed (h : Administered failing machines s)
    (hflat : ∀ m ∈ machines, Flat m) : Governed machines s.contents := by
  induction h with
  | empty => exact governed_empty machines
  | request _ hq run ih => exact (ih.ensures_request hflat hq).invariant_of_reaches run

end ControlPlane.Registry
