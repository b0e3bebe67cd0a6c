import ControlPlane.Proofs.Registry.Concurrency
import ControlPlane.Proofs.Registry.Lookup
import ControlPlane.Proofs.Store.Passing

/-!
# Controllers are a map

A registry keeps controllers as documents, each under a key made of its id, and what it gives is
what was written last. The specification knows no keys and no documents. It is the list of all that
was asked, `Ruling`s, and looks back through it: the controller of an id is the one that was last
written under it, unless it was removed since.

Between any two rulings others may use the store as they like, at any moment and with entries that
come to their end, as long as they leave the keys of controllers alone. So nothing is asked of the
other entries, and the rules for stores that are in order do not apply here. What is known of the
store is only what is under the keys of controllers, from now on.

Ids that are written have to be names: a controller with a slash in its id has a document of its
own, but no listing shows it. Any id may be asked for and be removed.

## Main definitions

* `Ruling`, `written?`: what is asked, and which controller it leaves under an id
* `Ruled`: the stores that rulings leave, with others between them
* `Maps`: everything that a registry then says of its controllers, and does to the rest

## Main results

* `living?_leaves`: one ruling, on one key
* `Ruled.values_eq`: all rulings
* `Ruled.maps`: controllers are a map
-/

namespace ControlPlane.Registry

open Contents ControlPlane.Path Keys Store StoreWork

/-! ### Looking back -/

/-- A controller is written, in the place of one with the same id, or removed. -/
inductive Ruling where
  | write (x : Controller)
  | remove (id : String)

namespace Ruling

/-- The id that a ruling is about. -/
def id : Ruling → String
  | write x => x.id
  | remove id => id

/-- What a ruling leaves under its id, if anything. -/
def left? : Ruling → Option Controller
  | write x => some x
  | remove _ => none

/-- The work of a ruling. -/
def work : Ruling → StoreWork Unit
  | write x => setController x
  | remove id => deleteController id

/-- A controller is written under a name that is a document of its own. Removing one asks for
nothing. -/
def Fits : Ruling → Prop
  | write x => ValidId x.id
  | remove _ => True

end Ruling

/-- The controller that was last written under an id and not removed since. The latest ruling comes
first. -/
def written? : List Ruling → String → Option Controller
  | [], _ => none
  | q :: past, id => if q.id = id then q.left? else written? past id

/-- What work leaves of a store, with all its calls made at one moment. -/
def leaves {α : Type} (now : Moment) (w : StoreWork α) (s : Store) : Store :=
  (w.run.run (fun c s => s.perform now c) s).2

/-- The store after some rulings, with the moment of its last call. Others use it as well and leave
the keys of controllers alone. Moments do not go back. -/
inductive Ruled : List Ruling → Store → Moment → Prop
  | empty (now : Moment) : Ruled [] .empty now
  | ruling {past : List Ruling} {s : Store} {now later : Moment} (q : Ruling) :
      Ruled past s now → now ≤ later → q.Fits → Ruled (q :: past) (leaves later q.work s) later
  | aside {past : List Ruling} {s : Store} {now later : Moment} (c : StoreCall) :
      Ruled past s now → now ≤ later → (∀ id, ¬ Writes c (Keys.controller id)) →
      Ruled past (s.perform later c).2 later

/-- What a registry says of its controllers after some rulings, and what it does to the rest. -/
structure Maps (past : List Ruling) (s : Store) (now : Moment) : Prop where
  /-- The controller of an id is the one that was last written under it. -/
  get : ∀ id, answer now (controller id) s =
    (written? past id).elim (.error (.controllerNotFound id)) .ok
  write : ∀ x, answer now (setController x) s = .ok ()
  /-- Only a controller that is there can be removed. -/
  remove : ∀ id, answer now (deleteController id) s =
    (written? past id).elim (.error (.controllerNotFound id)) fun _ => .ok ()
  /-- A removal that fails drops what is over, as any call does, and changes nothing. -/
  refused : ∀ id, written? past id = none →
    (leaves now (deleteController id) s).contents = (s.contents.purge now).2 ∧
      ∀ latest, now ≤ latest → Unchanged latest s (leaves now (deleteController id) s)
  /-- Every controller that is there is listed, once, in the order of the bytes of the ids. -/
  list : ∃ l, answer now controllers s = .ok l ∧
    (l.Pairwise fun x y => utf8Bytes x.id < utf8Bytes y.id) ∧
    ∀ x, x ∈ l ↔ written? past x.id = some x
  /-- A ruling leaves every other key as it is, -/
  others : ∀ (q : Ruling) latest key, now ≤ latest → key ≠ Keys.controller q.id →
    (leaves now q.work s).contents.living? latest key = s.contents.living? latest key
  /-- so task documents, manifest lists and events stay as they are, -/
  documents : ∀ (q : Ruling) latest key, now ≤ latest →
    ((∃ m id, key = Keys.task m id) ∨ (∃ m, key = Keys.manifests m) ∨
      ∃ container, isUnder (eventsDir container) key true = true) →
    (leaves now q.work s).contents.living? latest key = s.contents.living? latest key
  /-- and asking changes nothing at all. -/
  asking : ∀ latest, now ≤ latest → Unchanged latest s (leaves now controllers s) ∧
    ∀ id, Unchanged latest s (leaves now (controller id) s)

variable {past : List Ruling} {s : Store} {now later latest : Moment} {id key : String}

theorem id_of_written? {x : Controller} (h : written? past id = some x) : x.id = id := by
  induction past with
  | nil => cases h
  | cons q past ih =>
    rw [written?] at h
    split at h
    · rename_i hid
      cases q with
      | write y => rwa [← Option.some.inj h]
      | remove id => cases h
    · exact ih h

/-! ### One call and what follows -/

/-- Work that begins with a call goes on with its answer. -/
theorem run_call_bind {α : Type} {c : StoreCall} (f : c.Result → StoreWork α) :
    (call c >>= f).run.run (fun c s => s.perform now c) s =
      (ExceptT.bindCont f (s.perform now c).1).run (fun c s => s.perform now c)
        (s.perform now c).2 :=
  Work.run_bind_eq rfl f

/-- The same where absence is a normal state. -/
theorem run_orNone_bind {α : Type} {c : StoreCall} (f : Option c.Result → StoreWork α) :
    ((call c).orNone >>= f).run.run (fun c s => s.perform now c) s =
      (ExceptT.bindCont f (Work.noneIfAbsent (s.perform now c).1)).run
        (fun c s => s.perform now c) (s.perform now c).2 := by
  refine Work.run_bind_eq ?_ f
  rw [Work.run_orNone]
  rfl

theorem perform_get_eq (now : Moment) (key : String) :
    (s.perform now (.get key)).1 =
      (s.contents.living? now key).elim (.error (.keyNotFound key))
        fun e => .ok (e.toNode key) :=
  (Passes.performed (x := (s, now)) (c := .get key) now (Nat.le_refl now)).get_eq

/-! ### One ruling -/

theorem run_write (x : Controller) :
    (setController x).run.run (fun c s => s.perform now c) s =
      (.ok (), (s.perform now (.set (Keys.controller x.id) x.encode none)).2) := by
  rw [setController, run_call_bind]
  have hset : (s.perform now (.set (Keys.controller x.id) x.encode none)).1 = _ :=
    (s.update_eq_settle now fun c => .ok (c.put now .set (Keys.controller x.id) x.encode none)).1
  rw [hset]
  rfl

theorem run_remove (id : String) :
    (deleteController id).run.run (fun c s => s.perform now c) s =
      ((s.contents.living? now (Keys.controller id)).elim (.error (.controllerNotFound id))
          fun _ => .ok (),
        (s.perform now (.delete (Keys.controller id) false)).2) := by
  rw [deleteController, run_orNone_bind]
  cases hthere : s.contents.living? now (Keys.controller id) with
  | none =>
    rw [(perform_delete_of_eq_none hthere).1]
    rfl
  | some e =>
    rw [(perform_delete_of_isSome (by rw [hthere]; rfl)).1]
    rfl

/-- What is left of the key of a ruling, and of all other keys. -/
theorem living?_leaves (q : Ruling) (hnow : now ≤ latest) :
    ((leaves now q.work s).contents.living? latest (Keys.controller q.id)).map Entry.value =
        q.left?.map Controller.encode ∧
      ∀ key, key ≠ Keys.controller q.id →
        (leaves now q.work s).contents.living? latest key = s.contents.living? latest key := by
  cases q with
  | write x =>
    rw [leaves, Ruling.work, run_write]
    obtain ⟨index, hset⟩ := (Passes.performed (x := (s, now)) (c := .set (Keys.controller x.id)
      x.encode none) now (Nat.le_refl now)).sets.2 latest hnow
    exact ⟨congrArg (Option.map Entry.value) ((hset _).trans (if_pos rfl)),
      fun key hkey => (hset key).trans (if_neg hkey)⟩
  | remove id =>
    rw [leaves, Ruling.work, run_remove]
    refine ⟨?_, fun key hkey => living?_perform (by simpa [Writes, Ruling.id] using hkey) hnow⟩
    rw [Ruling.id]
    cases hthere : s.contents.living? now (Keys.controller id) with
    | none =>
      rw [(perform_delete_of_eq_none hthere).2, living?_purge hnow,
        living?_eq_none_of_le hnow hthere]
      rfl
    | some e =>
      rw [(perform_delete_of_isSome (by rw [hthere]; rfl)).2]
      rfl

/-! ### All rulings -/

/-- **What is under the keys of controllers** is what was written last, from the last call on. -/
theorem Ruled.values_eq (h : Ruled past s now) (hnow : now ≤ latest) (id : String) :
    s.values latest (Keys.controller id) = (written? past id).map Controller.encode := by
  induction h generalizing latest with
  | empty => rfl
  | @ruling past s now later q h hle _ ih =>
    obtain ⟨hown, hothers⟩ := living?_leaves (s := s) q hnow
    rw [written?]
    by_cases hid : q.id = id
    · rw [if_pos hid, ← hid]
      exact hown
    · rw [if_neg hid, ← ih (Nat.le_trans hle hnow)]
      exact congrArg (Option.map Entry.value)
        (hothers _ fun hkey => hid (controller_inj.mp hkey).symm)
  | @aside past s now later c h hle hc ih =>
    rw [← ih (Nat.le_trans hle hnow)]
    exact congrArg (Option.map Entry.value) (living?_perform (hc id) hnow)

theorem Ruled.validId (h : Ruled past s now) {x : Controller} (hx : written? past id = some x) :
    ValidId x.id := by
  induction h with
  | empty => cases hx
  | ruling q _ _ hq ih =>
    rw [written?] at hx
    split at hx
    · cases q with
      | write y => rwa [← Option.some.inj hx]
      | remove id => cases hx
    · exact ih hx
  | aside _ _ _ _ ih => exact ih hx

/-! ### Asking -/

/-- A controller that is there can be read, since nobody else writes under these keys. -/
theorem run_controller (now : Moment) (id : String) :
    (controller id).run.run (fun c s => s.perform now c) s =
      ((s.contents.living? now (Keys.controller id)).elim (.error (.controllerNotFound id))
          fun e => answer now (controllerIn id e.value) s,
        (s.perform now (.get (Keys.controller id))).2) := by
  have hrun : (controller id).run.run (fun c s => s.perform now c) s = _ :=
    run_orNone_bind (c := .get (Keys.controller id)) _
  rw [hrun, perform_get_eq]
  cases s.contents.living? now (Keys.controller id) with
  | none => rfl
  | some e =>
    change (controllerIn id e.value).run.run _ _ = (answer now (controllerIn id e.value) s, _)
    rw [answer, controllerIn]
    cases (Json.ofText? e.value).bind Controller.read <;> rfl

theorem run_controllers (now : Moment) :
    controllers.run.run (fun c s => s.perform now c) s =
      (.ok (controllersOn (s.contents.purge now).2),
        (s.perform now (.list controllersDir false)).2) := by
  have hrun : controllers.run.run (fun c s => s.perform now c) s = _ :=
    run_orNone_bind (c := .list controllersDir false) _
  rw [hrun, perform_list, contents_of_isRead now rfl, controllersOn, documentsIn]
  split
  · rename_i hnone
    rw [hnone]
    rfl
  · rfl

theorem answer_controllerIn {x : Controller} {text : String} (now : Moment)
    (h : text = x.encode) : answer now (controllerIn id text) s = .ok x := by
  rw [h, controllerIn, Controller.read_encode]
  rfl

/-- What is there is the document of the controller that was written. -/
theorem Ruled.living?_eq (h : Ruled past s now) (hnow : now ≤ later) (id : String) :
    (written? past id = none ∧ s.contents.living? later (Keys.controller id) = none) ∨
      ∃ x e, written? past id = some x ∧
        s.contents.living? later (Keys.controller id) = some e ∧ e.value = x.encode := by
  have hvalue := h.values_eq hnow id
  rw [values] at hvalue
  cases hthere : s.contents.living? later (Keys.controller id) with
  | none =>
    rw [hthere] at hvalue
    exact .inl ⟨Option.map_eq_none_iff.mp hvalue.symm, rfl⟩
  | some e =>
    rw [hthere] at hvalue
    obtain ⟨x, hx, hencode⟩ := Option.map_eq_some_iff.mp hvalue.symm
    exact .inr ⟨x, e, hx, rfl, hencode.symm⟩

theorem Ruled.registered (h : Ruled past s now) (hnow : now ≤ later) :
    Registered (s.contents.purge later).2 := by
  intro id e he
  rw [kept?_purge] at he
  rcases h.living?_eq hnow id with ⟨-, hnone⟩ | ⟨x, e', hx, he', hvalue⟩
  · cases hnone.symm.trans he
  · obtain rfl := Option.some.inj (he'.symm.trans he)
    exact ⟨x, hvalue, id_of_written? hx⟩

theorem Ruled.controllerOn?_eq (h : Ruled past s now) (hnow : now ≤ later) (id : String) :
    controllerOn? (s.contents.purge later).2 id = written? past id := by
  rw [controllerOn?, kept?_purge]
  rcases h.living?_eq hnow id with ⟨hx, hnone⟩ | ⟨x, e, hx, he, hvalue⟩
  · rw [hx, hnone]
    rfl
  · rw [hx, he, Option.bind_some, hvalue, Controller.read_encode]

/-! ### The map -/

theorem event_ne_controller (container : String) (name : List Char) (id : String) :
    String.ofList (dirLead (eventsDir container) ++ name) ≠ Keys.controller id := by
  intro hkey
  rw [← String.toList_inj, String.toList_ofList, toList_controller] at hkey
  exact event_append_ne container name (inRegistry_controllersLead _) hkey

/-- **Controllers are a map.** -/
theorem Ruled.maps (h : Ruled past s now) (hnow : now ≤ later) : Maps past s later where
  get id := by
    rw [answer, run_controller]
    rcases h.living?_eq hnow id with ⟨hx, hnone⟩ | ⟨x, e, hx, he, hvalue⟩
    · rw [hx, hnone]
      rfl
    · rw [hx, he, Option.elim_some, Option.elim_some]
      exact answer_controllerIn later hvalue
  write x := by rw [answer, run_write]
  remove id := by
    rw [answer, run_remove]
    rcases h.living?_eq hnow id with ⟨hx, hnone⟩ | ⟨x, e, hx, he, -⟩
    · rw [hx, hnone]
      rfl
    · rw [hx, he]
      rfl
  refused id hx := by
    have hnone : s.contents.living? later (Keys.controller id) = none := by
      rcases h.living?_eq hnow id with ⟨-, hnone⟩ | ⟨x, e, hx', -⟩
      · exact hnone
      · cases hx.symm.trans hx'
    have hcontents := (perform_delete_of_eq_none hnone).2
    rw [leaves, run_remove]
    exact ⟨hcontents, fun latest hlatest => unchanged_of_purge hlatest hcontents⟩
  list := by
    have hregistered := h.registered hnow
    refine ⟨controllersOn (s.contents.purge later).2, by rw [answer, run_controllers], ?_, ?_⟩
    · exact hregistered.ascending_controllersOn.imp utf8Bytes_lt
    · intro x
      rw [hregistered.mem_controllersOn_iff, h.controllerOn?_eq hnow, and_iff_right_of_imp]
      exact h.validId
  others q latest key hlatest hkey := (living?_leaves q hlatest).2 key hkey
  documents q latest key hlatest hkey := by
    refine (living?_leaves q hlatest).2 key ?_
    rcases hkey with ⟨m, id, rfl⟩ | ⟨m, rfl⟩ | ⟨container, hunder⟩
    · exact task_ne_controller
    · exact manifests_ne_controller
    · obtain ⟨name, hname, -⟩ := isUnder_iff.mp hunder
      rw [← String.ofList_toList (s := key), hname]
      exact event_ne_controller container name q.id
  asking latest hlatest := by
    refine ⟨?_, fun id => ?_⟩
    · rw [leaves, run_controllers]
      exact unchanged_of_purge hlatest (contents_of_isRead later rfl)
    · rw [leaves, run_controller]
      exact unchanged_of_purge hlatest (contents_of_isRead later rfl)

/-- A controller by its id and the number of its replicas. -/
def sized (id : String) (replicas : UInt64) : Controller :=
  { id := id, desiredState := { replicas := replicas } }

/-- Two controllers of which one has an id that begins with that of the other. -/
def rulings : List Ruling :=
  [.remove "web2", .remove "web2", .write (sized "web" 3), .write (sized "web2" 1),
    .write (sized "web" 2)]

/-- The first is written anew, the other removed twice. Meanwhile a task document is written, and an
event that has come to its end when the controllers are asked for. -/
theorem Ruled.maps_rulings :
    ∃ s, Ruled rulings s 40 ∧ 40 ≤ 2000000000 ∧
      written? rulings "web" = some (sized "web" 3) ∧ written? rulings "web2" = none ∧
      Maps rulings s 2000000000 := by
  have hweb : ValidId "web" := ⟨by decide, by decide⟩
  have hweb2 : ValidId "web2" := ⟨by decide, by decide⟩
  have h1 := @ruling _ _ 0 10 (.write (sized "web" 2)) (empty 0) (by decide) hweb
  have h2 := @aside _ _ 10 10 (.set (Keys.task "h1" "web") "-" none) h1 (by decide) fun id hkey =>
    task_ne_controller hkey.symm
  have h3 := @ruling _ _ 10 20 (.write (sized "web2" 1)) h2 (by decide) hweb2
  have h4 := @aside _ _ 20 20 (.addChild (eventsDir "c") "-" (Span.ofSeconds 1)) h3 (by decide)
    fun id hkey => event_ne_controller "c" _ id hkey.choose_spec.symm
  have h5 := @ruling _ _ 20 30 (.write (sized "web" 3)) h4 (by decide) hweb
  have h6 := @ruling _ _ 30 40 (.remove "web2") h5 (by decide) trivial
  have h7 := @ruling _ _ 40 40 (.remove "web2") h6 (by decide) trivial
  exact ⟨_, h7, by decide, rfl, rfl, h7.maps (by decide)⟩

end ControlPlane.Registry
