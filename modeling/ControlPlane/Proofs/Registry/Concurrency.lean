import ControlPlane.Proofs.Program.Interleaving
import ControlPlane.Proofs.Registry.Binding
import ControlPlane.Proofs.Registry.Controllers
import ControlPlane.Proofs.Store.Values

/-!
# One writer for a machine is enough

The registry reads, changes and writes manifest lists without a comparison in between. Two
operations on one machine may therefore lose a manifest. Two operations on different machines, and
on tasks of different ids, do not have to know of each other: each of them only touches the
documents of its own id, wherever they may be, and on its own machine the manifest list and what
lies under the document. So they may make their calls in any turns, and it comes to the same as one
of them after the other, in either order.

They may do so in every state that the registry can bring about, also one that was left in the
middle of other operations. Entries that expire are no exception, since the registry has none under
the keys of machines.

## Main definitions

* `Registry.Use`, `Registry.Reachable`: what is done through the registry, and what it may leave
* `Registry.Operation.machine?`: the machine that an operation has to do with
* `Registry.Territory`: the keys that it touches
* `Registry.ComesTo`: what two operations come to one after the other

## Main results

* `Registry.Reachable.lasting`: nothing expires under the keys of machines
* `Registry.ensures_territory`: an operation keeps to its territory
* `Registry.operations_commute`: operations with different ids and machines
-/

namespace ControlPlane

namespace Keys

open ControlPlane.Path

variable {m m' id id' key : String}

/-- The key belongs to some machine. Controllers and events are elsewhere, so nothing that is done
about tasks concerns them. -/
def OfMachine (key : String) : Prop := ∃ rest, key.toList = lead ++ rest

theorem ofMachine_task (m id : String) : OfMachine (task m id) := ⟨_, toList_task m id⟩

theorem ofMachine_manifests (m : String) : OfMachine (manifests m) := ⟨_, toList_manifests m⟩

/-- What lies under a task goes on behind the name of its machine. -/
theorem toList_of_isUnder_task (h : isUnder (task m id) key true = true) :
    ∃ rest, key.toList = lead ++ (m.toList ++ '/' :: rest) := by
  obtain ⟨rest, hkey, -⟩ := isUnder_iff.mp h
  rw [dirLead_task, dirLead_tasksDir] at hkey
  exact ⟨tasksPart ++ '/' :: (idLead id ++ rest), by simpa using hkey⟩

theorem ofMachine_of_isUnder_task (h : isUnder (task m id) key true = true) : OfMachine key := by
  obtain ⟨rest, hkey⟩ := toList_of_isUnder_task h
  exact ⟨_, hkey⟩

theorem not_ofMachine_event (container : String) (name : List Char) :
    ¬ OfMachine (String.ofList (dirLead (eventsDir container) ++ name)) := by
  rintro ⟨rest, hkey⟩
  rw [String.toList_ofList] at hkey
  exact event_append_ne container name (inRegistry_lead rest) hkey

end Keys

namespace Registry

open Program Store StoreWork Keys ControlPlane.Path

/-! ### What the registry may leave -/

/-- What is done through the registry. -/
inductive Use where
  | request (q : Request)
  | setManifests (machine : String) (list : List Manifest)
  | recordEvent (e : Event) (ttl : Span)
  | tasks (selector : Labels)
  | task (id : String)
  | manifests (machine : String)
  | controllers
  | controller (id : String)

/-- The work of a use, without its result. -/
def Use.work (machines : List String) : Use → StoreWork Unit
  | request q => q.work machines
  | setManifests machine list => Registry.setManifests machine list
  | recordEvent e ttl => Registry.recordEvent e ttl
  | tasks selector => do let _ ← Registry.tasks machines selector
  | task id => do let _ ← Registry.task machines id
  | manifests machine => do let _ ← Registry.manifests machine
  | controllers => do let _ ← Registry.controllers
  | controller id => do let _ ← Registry.controller id

/-- What the registry may leave of an empty store: every call is one that some use of it may make.
Uses need not come to their end, and others may go on meanwhile. -/
inductive Reachable (machines : List String) : Store → Prop
  | empty : Reachable machines .empty
  | call {s : Store} {use : Use} {c : StoreCall} (now : Moment) : Reachable machines s →
      (use.work machines).run.MayAsk c → Reachable machines (s.perform now c).2

variable {machines : List String} {s t : Store} {latest : Moment}

/-- Whatever a use does, also where calls fail, is part of it. -/
theorem Reachable.of_reaches {fails : StoreCall → Prop} {use : Use}
    {p : Program storeCalls (Except Error Unit)} (hs : Reachable machines s)
    (run : Reaches (falters latest fails) (use.work machines).run s p t) :
    Reachable machines t := by
  induction run with
  | start => exact hs
  | call hrun hstep ih =>
    cases hstep with
    | performed now _ => exact .call now ih (.of_reaches hrun .first)
    | failed => exact ih

/-- A call that lets nothing expire under the keys of machines. -/
abbrev SparesMachines : StoreCall → Prop := Spares OfMachine

theorem asks_spares_call {c : StoreCall} (hc : SparesMachines c) :
    (call c).run.Asks SparesMachines fun _ => True :=
  asks_ask.mpr ⟨hc, fun _ => trivial⟩

theorem asks_spares_orNone {α : Type} {w : StoreWork α}
    (hw : w.run.Asks SparesMachines fun _ => True) :
    w.orNone.run.Asks SparesMachines fun _ => True :=
  Work.asks_orNone.mpr (hw.mono fun _ _ => trivial)

theorem asks_spares_bind {α β : Type} {w : StoreWork α} {f : α → StoreWork β}
    (hw : w.run.Asks SparesMachines fun _ => True)
    (hf : ∀ a, (f a).run.Asks SparesMachines fun _ => True) :
    (w >>= f).run.Asks SparesMachines fun _ => True := by
  refine Work.asks_bind.mpr (hw.mono fun r _ => ?_)
  cases r with
  | ok a => exact hf a
  | error e => trivial

theorem asks_spares_of_reads {α : Type} {w : StoreWork α}
    (hw : w.run.Asks (fun c : StoreCall => c.isRead = true) fun _ => True) :
    w.run.Asks SparesMachines fun _ => True := by
  refine hw.mono_calls fun c hc => ?_
  cases c with
  | get key => trivial
  | list dir recursive => trivial
  | _ => cases hc

theorem asks_spares_documents {α : Type} (read : Json → Option α) (dir : String) :
    (documents read dir).run.Asks SparesMachines fun _ => True :=
  asks_spares_bind (asks_spares_orNone (asks_spares_call trivial)) fun _ => trivial

theorem asks_spares_tasks (machines : List String) (selector : Labels) :
    (tasks machines selector).run.Asks SparesMachines fun _ => True := by
  refine asks_spares_bind ?_ fun _ => trivial
  induction machines with
  | nil => trivial
  | cons machine machines ih =>
    rw [List.mapM_cons]
    refine asks_spares_bind ?_ fun _ => asks_spares_bind ih fun _ => trivial
    exact asks_spares_bind (asks_spares_documents _ _) fun _ => trivial

theorem asks_spares_locate (machines : List String) (id : String) :
    (locate machines id).run.Asks SparesMachines fun _ => True := by
  refine asks_spares_bind (asks_spares_of_reads (asks_locate? id machines)) fun found => ?_
  cases found <;> trivial

theorem asks_spares_setManifests (machine : String) (list : List Manifest) :
    (setManifests machine list).run.Asks SparesMachines fun _ => True :=
  asks_spares_bind (asks_spares_call fun _ => rfl) fun _ => trivial

theorem asks_spares_request (machines : List String) (q : Request) :
    (q.work machines).run.Asks SparesMachines fun _ => True := by
  cases q with
  | task op =>
    cases op with
    | create machine t =>
      refine asks_spares_bind (asks_spares_of_reads (asks_locate? t.id machines)) fun found => ?_
      rcases found with _ | ⟨existing, found⟩
      · refine asks_spares_bind (asks_spares_of_reads (asks_manifests machine)) fun list => ?_
        exact asks_spares_bind (asks_spares_call fun _ => rfl)
          fun _ => asks_spares_setManifests machine _
      · trivial
    | delete id =>
      refine asks_spares_bind (asks_spares_locate machines id) fun found => ?_
      refine asks_spares_bind (asks_spares_of_reads (asks_manifests found.1)) fun list => ?_
      exact asks_spares_bind (asks_spares_setManifests found.1 _) fun _ => asks_spares_call trivial
  | setController x => exact asks_spares_bind (asks_spares_call fun _ => rfl) fun _ => trivial
  | deleteController id =>
    refine asks_spares_bind (asks_spares_orNone (asks_spares_call trivial)) fun removed => ?_
    cases removed <;> trivial

/-- No use of the registry lets an entry of a machine expire. -/
theorem asks_spares_use (machines : List String) (use : Use) :
    (use.work machines).run.Asks SparesMachines fun _ => True := by
  cases use with
  | request q => exact asks_spares_request machines q
  | setManifests machine list => exact asks_spares_setManifests machine list
  | recordEvent e ttl =>
    exact asks_spares_bind (asks_spares_call fun name => not_ofMachine_event e.container name)
      fun _ => trivial
  | tasks selector => exact asks_spares_bind (asks_spares_tasks machines selector) fun _ => trivial
  | task id =>
    refine asks_spares_bind ?_ fun _ => trivial
    exact asks_spares_bind (asks_spares_locate machines id) fun _ => trivial
  | manifests machine =>
    exact asks_spares_bind (asks_spares_of_reads (asks_manifests machine)) fun _ => trivial
  | controllers => exact asks_spares_bind (asks_spares_documents _ _) fun _ => trivial
  | controller id =>
    refine asks_spares_bind ?_ fun _ => trivial
    refine asks_spares_bind (asks_spares_of_reads (asks_node? _)) fun found => ?_
    rcases found with _ | node
    · trivial
    · dsimp only
      cases (Json.ofText? node.value).bind Controller.read <;> trivial

/-- **Nothing expires under the keys of machines,** whatever is done through the registry. -/
theorem Reachable.lasting (hs : Reachable machines s) : s.contents.LastingOn OfMachine := by
  induction hs with
  | empty => exact fun _ _ _ h => nomatch h
  | @call s use c now _ hc ih =>
    exact lastingOn_perform ih ((asks_spares_use machines use).of_mayAsk hc) now

/-! ### What an operation touches -/

/-- The id of the task of an operation, which with the machine says what it may touch. -/
def Operation.id : Operation → String
  | create _ t => t.id
  | delete id => id

/-- The machine that an operation has to do with: the one that it binds a task to, or the first one
that has a document of the task that it unbinds. -/
def Operation.machine? (machines : List String) (x : Values) : Operation → Option String
  | create machine _ => some machine
  | delete id => machines.find? fun m => (x (Keys.task m id)).isSome

/-- The keys that an operation on a task may touch: the documents of the task on all machines, and
on its own machine the manifest list and everything under the document. -/
def Territory (id : String) (machine? : Option String) (key : String) : Prop :=
  (∃ m, Flat m ∧ key = Keys.task m id) ∨
    ∃ m ∈ machine?, key = Keys.manifests m ∨ isUnder (Keys.task m id) key true = true

section

variable {id id' : String} {machine? machine?' : Option String}

/-- A document does not lie in the territory of another task. -/
theorem not_territory_task (hid' : ValidId id') (hid : Flat id) (hne : id ≠ id')
    (hflat' : ∀ m ∈ machine?', Flat m) {m : String} (hm : Flat m) :
    ¬ Territory id' machine?' (Keys.task m id) := by
  rintro (⟨m', hm', heq⟩ | ⟨m', hm', heq | hunder⟩)
  · exact hne ((task_inj hm hm').mp heq).2
  · exact task_ne_manifests hm (hflat' m' hm') heq
  · have hbelow := ((isUnder_task_task_iff (hflat' m' hm') hm).mp hunder).2
    exact not_below_of_flat hid'.trimEnd_ne_nil hid hbelow

/-- **Tasks of different ids on different machines have nothing in common.** -/
theorem territories_apart (hid : ValidId id) (hid' : ValidId id') (hne : id ≠ id')
    (hflat : ∀ m ∈ machine?, Flat m) (hflat' : ∀ m ∈ machine?', Flat m)
    (hmachines : ∀ m ∈ machine?, m ∉ machine?') (key : String)
    (hkey : Territory id machine? key) : ¬ Territory id' machine?' key := by
  rcases hkey with ⟨m, hm, rfl⟩ | ⟨m, hm, rfl | hunder⟩
  · exact not_territory_task hid' hid.flat hne hflat' hm
  · rintro (⟨m', hm', heq⟩ | ⟨m', hm', heq | hunder⟩)
    · exact task_ne_manifests hm' (hflat m hm) heq.symm
    · exact hmachines m hm ((manifests_inj (hflat m hm) (hflat' m' hm')).mp heq ▸ hm')
    · rw [isUnder_task_manifests (hflat' m' hm') (hflat m hm)] at hunder
      cases hunder
  · rintro (⟨m', hm', rfl⟩ | ⟨m', hm', rfl | hunder'⟩)
    · refine not_territory_task hid hid'.flat hne.symm hflat hm' ?_
      exact .inr ⟨m, hm, .inr hunder⟩
    · rw [isUnder_task_manifests (hflat m hm) (hflat' m' hm')] at hunder
      cases hunder
    · -- the key tells the name of its machine
      obtain ⟨rest, hkey⟩ := toList_of_isUnder_task hunder
      obtain ⟨rest', hkey'⟩ := toList_of_isUnder_task hunder'
      rw [hkey, List.append_cancel_left_eq, append_slash_inj (hflat m hm) (hflat' m' hm'),
        String.toList_inj] at hkey'
      exact hmachines m hm (hkey'.1 ▸ hm')

end

/-! ### What an operation looks at -/

/-- Work that only makes calls on keys of machines, and does not look at indices. -/
def IndexBlind {α : Type} (w : StoreWork α) : Prop :=
  Program.Blind (I := storeCalls) (fun c => c.OnKeys ∧ ∀ k, c.Touches k → OfMachine k)
    StoreCall.bare w.run

section

variable {α β : Type} {key : String}

theorem indexBlind_bind {w : StoreWork α} {f : α → StoreWork β} (hw : IndexBlind w)
    (hf : ∀ a, IndexBlind (f a)) : IndexBlind (w >>= f) := by
  refine Blind.bind hw fun r => ?_
  cases r with
  | ok a => exact hf a
  | error e => trivial

/-- Of a node that is read only the value may count. -/
theorem indexBlind_node?_bind {f : Option Node → StoreWork α} (hkey : OfMachine key)
    (hvalue : ∀ node : Node, f (some node) = f (some { node with index := 0 }))
    (hf : ∀ found, IndexBlind (f found)) : IndexBlind (node? key >>= f) := by
  have hrun : (node? key).run = Program.bind (call (.get key)).run fun r =>
      .done (Work.noneIfAbsent r) :=
    Work.run_orNone _
  change Program.Blind (I := storeCalls) _ _ ((node? key).run.bind _)
  rw [hrun]
  refine ⟨⟨trivial, fun k (hk : k = key) => hk ▸ hkey⟩, fun r => ⟨?_, ?_⟩⟩
  · cases r with
    | ok node => exact congrArg ExceptT.run (hvalue node)
    | error e => rfl
  · cases r with
    | ok node => exact hf (some node)
    | error e =>
      change Program.Blind (I := storeCalls) _ _ (ExceptT.bindCont f (Work.noneIfAbsent (.error e)))
      by_cases he : e.isNotFound = true
      · rw [Work.noneIfAbsent, if_pos he]
        exact hf none
      · rw [Work.noneIfAbsent, if_neg he]
        trivial

/-- Nobody looks at what a write answers, as long as it comes off. -/
theorem indexBlind_set_bind {value : String} {w : StoreWork α} (hkey : OfMachine key)
    (hw : IndexBlind w) : IndexBlind (call (.set key value none) >>= fun _ => w) := by
  refine ⟨⟨rfl, fun k (hk : k = key) => hk ▸ hkey⟩, fun r => ⟨?_, ?_⟩⟩
  · cases r <;> rfl
  · cases r with
    | ok node => exact hw
    | error e => trivial

theorem indexBlind_create_bind {value : String} {w : StoreWork α} (hkey : OfMachine key)
    (hw : IndexBlind w) : IndexBlind (call (.create key value none) >>= fun _ => w) := by
  refine ⟨⟨rfl, fun k (hk : k = key) => hk ▸ hkey⟩, fun r => ⟨?_, ?_⟩⟩
  · cases r <;> rfl
  · cases r with
    | ok node => exact hw
    | error e => trivial

theorem indexBlind_locate? (id : String) (machines : List String) :
    IndexBlind (locate? id machines) := by
  induction machines with
  | nil => trivial
  | cons machine machines ih =>
    refine indexBlind_node?_bind (ofMachine_task machine id) (fun _ => rfl) fun found => ?_
    rcases found with _ | node
    · exact ih
    · dsimp only
      cases (Json.ofText? node.value).bind Task.read <;> trivial

theorem indexBlind_manifests (machine : String) : IndexBlind (manifests machine) := by
  refine indexBlind_node?_bind (ofMachine_manifests machine) (fun _ => rfl) fun found => ?_
  cases found <;> trivial

theorem indexBlind_setManifests (machine : String) (list : List Manifest) :
    IndexBlind (setManifests machine list) :=
  indexBlind_set_bind (ofMachine_manifests machine) trivial

/-- **Operations do not look at indices.** They read values, and what they write depends on nothing
else; so it does not matter how many changes others have made. -/
theorem indexBlind_work (machines : List String) (op : Operation) :
    IndexBlind (op.work machines) := by
  cases op with
  | create machine t =>
    refine indexBlind_bind (indexBlind_locate? t.id machines) fun found => ?_
    rcases found with _ | ⟨existing, found⟩
    · refine indexBlind_bind (indexBlind_manifests machine) fun list => ?_
      exact indexBlind_create_bind (ofMachine_task machine t.id) (indexBlind_setManifests machine _)
    · trivial
  | delete id =>
    refine indexBlind_bind ?_ fun found => ?_
    · refine indexBlind_bind (indexBlind_locate? id machines) fun found => ?_
      cases found <;> trivial
    · refine indexBlind_bind (indexBlind_manifests found.1) fun list => ?_
      refine indexBlind_bind (indexBlind_setManifests found.1 _) fun _ => ?_
      refine ⟨⟨trivial, ?_⟩, fun r => ⟨rfl, trivial⟩⟩
      rintro k (rfl | hunder)
      · exact ofMachine_task found.1 id
      · exact ofMachine_of_isUnder_task hunder

end

/-! ### Operations on a map -/

/-- The steps of a map, with the calls written down. -/
abbrev valueSteps : storeCalls.Steps (Values × List StoreCall) :=
  stepsOf (I := storeCalls) Values.perform fun _ _ => True

/-- The calls that were made keep to some keys. -/
def Kept (keys : String → Prop) (y : Values × List StoreCall) : Prop :=
  ∀ c ∈ y.2, ∀ k, c.Touches k → keys k

section

variable {keys : String → Prop} {y : Values × List StoreCall} {key id machine : String}
  {op : Operation} {x : Values}

/-- A call that keeps to the keys is answered as the map answers it. -/
theorem ensures_keeping_call {c : StoreCall} (hy : Kept keys y) (hc : ∀ k, c.Touches k → keys k) :
    (call c).run.Ensures valueSteps (Kept keys)
      (fun r z => r = (Values.perform c y.1).1 ∧ z.1 = (Values.perform c y.1).2) y := by
  refine ensures_ask.mpr ⟨hy, ?_⟩
  rintro a ⟨x, calls⟩ ⟨-, hhandle, rfl⟩
  refine ⟨fun c' hc' => ?_, (congrArg Prod.fst hhandle).symm, (congrArg Prod.snd hhandle).symm⟩
  rcases List.mem_append.mp hc' with hc' | hc'
  · exact hy c' hc'
  · exact List.mem_singleton.mp hc' ▸ hc

theorem ensures_keeping_node? (hy : Kept keys y) (hkey : keys key) :
    (node? key).run.Ensures valueSteps (Kept keys)
      (fun r z => r = .ok ((y.1 key).map fun value => ⟨key, value, 0⟩) ∧ z.1 = y.1) y := by
  refine Work.ensures_orNone.mpr ((ensures_keeping_call hy ?_).mono ?_)
  · rintro k rfl
    exact hkey
  · rintro r z - ⟨rfl, hz⟩
    refine ⟨?_, hz⟩
    rw [Values.perform]
    cases y.1 key <;> rfl

/-- The task is found on the first machine that has a document of it. -/
theorem ensures_keeping_locate? (hy : Kept keys y) {machines : List String}
    (hkeys : ∀ m ∈ machines, keys (Keys.task m id)) :
    (locate? id machines).run.Ensures valueSteps (Kept keys)
      (fun r z => z.1 = y.1 ∧ ∀ found, r = .ok (some found) →
        machines.find? (fun m => (y.1 (Keys.task m id)).isSome) = some found.1) y := by
  induction machines generalizing y with
  | nil => exact ⟨hy, rfl, nofun⟩
  | cons machine machines ih =>
    refine Work.Ensures.bind (ensures_keeping_node? hy (hkeys machine (List.mem_cons_self ..))) ?_
      fun e z hz h => ⟨h.2, nofun⟩
    rintro node z hz ⟨hnode, hsame⟩
    rw [List.find?_cons]
    cases hvalue : y.1 (Keys.task machine id) with
    | none =>
      rw [hvalue] at hnode
      obtain rfl := Except.ok.inj hnode
      refine (ih hz fun m hm => hkeys m (List.mem_cons_of_mem _ hm)).mono ?_
      rintro r u - ⟨hu, hfound⟩
      rw [hsame] at hu hfound
      exact ⟨hu, hfound⟩
    | some value =>
      rw [hvalue] at hnode
      obtain rfl := Except.ok.inj hnode
      dsimp only [Option.map]
      cases (Json.ofText? value).bind Task.read with
      | none => exact ⟨hz, hsame, nofun⟩
      | some t =>
        refine ⟨hz, hsame, fun found hfound => ?_⟩
        obtain rfl := Option.some.inj (Except.ok.inj hfound)
        rfl

theorem ensures_keeping_manifests (hy : Kept keys y) (hkey : keys (Keys.manifests machine)) :
    (manifests machine).run.Ensures valueSteps (Kept keys) (fun _ z => z.1 = y.1) y := by
  refine Work.Ensures.bind (ensures_keeping_node? hy hkey) ?_ fun _ _ _ h => h.2
  rintro (_ | node) z hz ⟨-, hsame⟩
  · exact ⟨hz, hsame⟩
  · exact ⟨hz, hsame⟩

theorem ensures_keeping_setManifests {list : List Manifest} (hy : Kept keys y)
    (hkey : keys (Keys.manifests machine)) :
    (setManifests machine list).run.Ensures valueSteps (Kept keys) (fun _ _ => True) y := by
  refine Work.Ensures.bind (ensures_keeping_call hy ?_) (fun _ _ hz _ => ⟨hz, trivial⟩)
    fun _ _ _ _ => trivial
  rintro k rfl
  exact hkey

/-- **An operation keeps to its territory,** as it is when the operation begins. -/
theorem ensures_territory (hflat : ∀ m ∈ machines, Flat m) (hop : Proper op)
    (hy : Kept (Territory op.id (op.machine? machines y.1)) y) :
    (op.work machines).run.Ensures valueSteps (Kept (Territory op.id (op.machine? machines y.1)))
      (fun _ _ => True) y := by
  cases op with
  | create machine t =>
    have hlist : Territory t.id (some machine) (Keys.manifests machine) := .inr ⟨_, rfl, .inl rfl⟩
    refine Work.Ensures.bind (ensures_keeping_locate? hy fun m hm => .inl ⟨m, hflat m hm, rfl⟩) ?_
      fun _ _ _ _ => trivial
    rintro (_ | found) z hz -
    · refine Work.Ensures.bind (ensures_keeping_manifests hz hlist) ?_ fun _ _ _ _ => trivial
      intro list u hu _
      refine Work.Ensures.bind (ensures_keeping_call hu ?_) ?_ fun _ _ _ _ => trivial
      · rintro k rfl
        exact .inl ⟨machine, hop.1, rfl⟩
      · exact fun _ v hv _ => ensures_keeping_setManifests hv hlist
    · exact ⟨hz, trivial⟩
  | delete id =>
    refine Work.Ensures.bind (m := fun r z => ∀ found, r = .ok found →
      found.1 ∈ (Operation.delete id).machine? machines y.1 ∧ Flat found.1) ?_ ?_
      fun _ _ _ _ => trivial
    · refine Work.Ensures.bind
        (ensures_keeping_locate? hy fun m hm => .inl ⟨m, hflat m hm, rfl⟩) ?_ fun _ _ _ _ => nofun
      rintro (_ | found) z hz ⟨-, hfound⟩
      · exact ⟨hz, nofun⟩
      · refine ⟨hz, fun found' hfound' => ?_⟩
        obtain rfl := Except.ok.inj hfound'
        exact ⟨hfound _ rfl, hflat _ (List.mem_of_find?_eq_some (hfound _ rfl))⟩
    · intro found z hz hfound
      obtain ⟨hmachine, hname⟩ := hfound found rfl
      refine Work.Ensures.bind (ensures_keeping_manifests hz (.inr ⟨_, hmachine, .inl rfl⟩)) ?_
        fun _ _ _ _ => trivial
      intro list u hu _
      refine Work.Ensures.bind
        (ensures_keeping_setManifests hu (.inr ⟨_, hmachine, .inl rfl⟩)) ?_ fun _ _ _ _ => trivial
      intro _ v hv _
      refine (ensures_keeping_call hv fun k hk => ?_).mono fun _ _ _ _ => trivial
      rcases hk with rfl | hunder
      · exact .inl ⟨found.1, hname, rfl⟩
      · exact .inr ⟨found.1, hmachine, .inr (Bool.and_eq_true_iff.mp hunder).2⟩

/-- So do all calls of its run. -/
theorem local_of_asked (hflat : ∀ m ∈ machines, Flat m) (hop : Proper op) :
    ∀ e ∈ (op.work machines).run.asked (I := storeCalls) Values.perform x,
      Program.Local (I := storeCalls) Values.perform
        (Territory op.id (op.machine? machines x)) e.1 := by
  intro e he
  have hensures : (op.work machines).run.Ensures valueSteps _
      (fun _ z => Kept (Territory op.id (op.machine? machines x)) z) (x, []) :=
    (ensures_territory hflat hop fun _ h => absurd h List.not_mem_nil).mono fun _ _ hz _ => hz
  have hkept := hensures.of_run fun _ _ => trivial
  exact Values.local_perform (hkept e.1 (List.mem_map_of_mem he))

end

/-! ### Two operations at once -/

variable {op op' : Operation} {r r' : Except Error Unit}

/-- One operation and then the other one: this can be done, and whenever it is done, they return
these results and leave the keys and values of this store. -/
def ComesTo (latest : Moment) (machines : List String) (op op' : Operation) (s : Store)
    (r r' : Except Error Unit) (t : Store) : Prop :=
  (∃ v, InTurn (falters latest fun _ => False) (op.work machines).run (op'.work machines).run
    s r r' v) ∧
  ∀ x x' v, InTurn (falters latest fun _ => False) (op.work machines).run (op'.work machines).run
    s x x' v → x = r ∧ x' = r' ∧ v.values latest = t.values latest

/-- All runs of two operations look to a map like runs on it. -/
theorem Reachable.interleaves_values {p q : Program storeCalls (Except Error Unit)}
    (hs : Reachable machines s)
    (run : Interleaves (falters latest fun _ => False) (op.work machines).run
      (op'.work machines).run s p q t) :
    Interleaves (exactly (I := storeCalls) Values.perform) (op.work machines).run
      (op'.work machines).run (s.values latest) p q (t.values latest) := by
  have hcall : ∀ c u a v, (c.OnKeys ∧ ∀ k, c.Touches k → OfMachine k) →
      u.contents.LastingOn OfMachine → Falters latest (fun _ => False) c u a v →
      v.contents.LastingOn OfMachine ∧
        Values.perform c (u.values latest) = (c.bare a, v.values latest) :=
    fun c u a v hc hu hstep => ⟨hstep.lastingOn hc.1 hu,
      hstep.values hc.1 fun key e hkey => hu key e (hc.2 key hkey)⟩
  exact run.image hcall hs.lasting (indexBlind_work machines op) (indexBlind_work machines op')

/-- All calls may be made at the first moment. -/
theorem falters_perform (latest : Moment) (c : StoreCall) (u : Store) :
    falters latest (fun _ => False) c u (u.perform 0 c).1 (u.perform 0 c).2 :=
  .performed 0 (Nat.zero_le _)

theorem exists_inTurn (latest : Moment) (p q : Program storeCalls (Except Error Unit))
    (s : Store) : ∃ r r' v, InTurn (falters latest fun _ => False) p q s r r' v :=
  ⟨_, _, _, _, .of_run (falters_perform latest) p s, .of_run (falters_perform latest) q _⟩

theorem machine?_flat {x : Values} (hflat : ∀ m ∈ machines, Flat m) (hop : Proper op) :
    ∀ m ∈ op.machine? machines x, Flat m := by
  cases op with
  | create machine t =>
    rintro m hm
    obtain rfl := Option.some.inj hm
    exact hop.1
  | delete id => exact fun m hm => hflat m (List.mem_of_find?_eq_some hm)

/-- **One writer for a machine is enough.** In every store that the registry can leave, two
operations on tasks of different ids and on different machines may make their calls in any turns and
at any moments: both return what they return one after the other, in either order, and the keys and
values that are left are the same. -/
theorem operations_commute (hflat : ∀ m ∈ machines, Flat m) (hs : Reachable machines s)
    (hop : Proper op) (hid : ValidId op.id) (hop' : Proper op') (hid' : ValidId op'.id)
    (hne : op.id ≠ op'.id)
    (hmachines : ∀ m ∈ op.machine? machines (s.values latest),
      m ∉ op'.machine? machines (s.values latest))
    (run : Interleaves (falters latest fun _ => False) (op.work machines).run
      (op'.work machines).run s (done r) (done r') t) :
    ComesTo latest machines op op' s r r' t ∧ ComesTo latest machines op' op s r' r t := by
  have hapart := territories_apart hid hid' hne (machine?_flat hflat hop)
    (machine?_flat hflat hop') hmachines
  have hsame : ∀ {x x' v}, Interleaves (falters latest fun _ => False) (op.work machines).run
      (op'.work machines).run s (done x) (done x') v →
      x = r ∧ x' = r' ∧ v.values latest = t.values latest := fun run' =>
    (hs.interleaves_values run').unique hapart (local_of_asked hflat hop)
      (local_of_asked hflat hop') (hs.interleaves_values run)
  refine ⟨⟨?_, fun x x' v hturn => hsame hturn.interleaves⟩, ?_, fun x' x v hturn => ?_⟩
  · obtain ⟨x, x', v, hturn⟩ := exists_inTurn latest _ _ s
    obtain ⟨rfl, rfl, -⟩ := hsame hturn.interleaves
    exact ⟨v, hturn⟩
  · obtain ⟨x', x, v, hturn⟩ := exists_inTurn latest _ _ s
    obtain ⟨rfl, rfl, -⟩ := hsame hturn.interleaves.symm
    exact ⟨v, hturn⟩
  · obtain ⟨hx, hx', hvalues⟩ := hsame hturn.interleaves.symm
    exact ⟨hx', hx, hvalues⟩

/-- Two bindings in turns, one call each. -/
def bothBound : Program storeCalls (Except Error Unit) × Program storeCalls (Except Error Unit) ×
    Store :=
  takeTurns (I := storeCalls) (fun c s => s.perform 0 c)
    [true, false, true, false, true, false, true, false, true, false]
    (createTask ["h1", "h2"] "h1" { id := "web" }).run
    (createTask ["h1", "h2"] "h2" { id := "db" }).run .empty

/-- Each of them comes off, as it does alone. -/
theorem operations_commute_bothBound :
    Reachable ["h1", "h2"] .empty ∧ ComesTo 0 ["h1", "h2"] (.create "h1" { id := "web" })
        (.create "h2" { id := "db" }) .empty (.ok ()) (.ok ()) bothBound.2.2 ∧
      ComesTo 0 ["h1", "h2"] (.create "h2" { id := "db" }) (.create "h1" { id := "web" }) .empty
        (.ok ()) (.ok ()) bothBound.2.2 := by
  have hrun : Interleaves (falters 0 fun _ => False)
      (createTask ["h1", "h2"] "h1" { id := "web" }).run
      (createTask ["h1", "h2"] "h2" { id := "db" }).run .empty
      bothBound.1 bothBound.2.1 bothBound.2.2 :=
    .of_takeTurns (falters_perform 0) .start _
  have hfirst : bothBound.1 = done (.ok ()) := eq_done_of_result? (by decide +kernel)
  have hsecond : bothBound.2.1 = done (.ok ()) := eq_done_of_result? (by decide +kernel)
  refine ⟨.empty, operations_commute (by decide) .empty ⟨by decide, by decide, by decide⟩
    ⟨by decide, by decide⟩ ⟨by decide, by decide, by decide⟩ ⟨by decide, by decide⟩ (by decide)
    (by decide) ?_⟩
  rwa [hfirst, hsecond] at hrun

end Registry

end ControlPlane
