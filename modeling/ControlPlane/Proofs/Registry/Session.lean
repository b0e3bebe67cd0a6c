import ControlPlane.Proofs.Registry.Documents

/-!
# Sessions on the registry

A session binds and unbinds tasks, one operation after the other, on a store that starts empty. An
operation goes on to its end, which may be an error, and what other readers see of it in between is
part of the session too.

What holds along a session is shown operation by operation: `Session.induction` and
`Observed.induction` reduce it to what one operation ensures, started in a state of which it is
known.

## Main definitions

* `Registry.Session`: what a sequence of operations leaves
* `Registry.Observed`: what may be seen in between
* `Registry.Proper`: operations with ids and machines that name documents

## Main results

* `Registry.Session.documented`: the documents of proper operations stay in order
-/

namespace ControlPlane.Registry

open Contents ControlPlane.Path Keys Store StoreWork

/-- What a session consists of. -/
inductive Operation where
  | create (machine : String) (t : Task)
  | delete (id : String)

/-- The work of an operation. -/
def Operation.work (machines : List String) : Operation → StoreWork Unit
  | create machine t => createTask machines machine t
  | delete id => deleteTask machines id

variable {failing : Prop} {machines : List String} {admits : Operation → Prop} {s : Store}

/-- What operations leave that were made one after the other on an empty store, each of them to its
end, successful or not. -/
inductive Session (failing : Prop) (machines : List String) (admits : Operation → Prop) :
    Store → Prop
  | empty : Session failing machines admits .empty
  | operation {s t : Store} {op : Operation} {r : Except Error Unit} :
      Session failing machines admits s → admits op →
      Program.Reaches (serves failing) (op.work machines).run s (.done r) t →
      Session failing machines admits t

/-- What may be seen while an operation of a session goes on, between any two of its calls. -/
def Observed (failing : Prop) (machines : List String) (admits : Operation → Prop) (t : Store) :
    Prop :=
  ∃ (s : Store) (op : Operation) (rest : Program storeCalls (Except Error Unit)),
    Session failing machines admits s ∧ admits op ∧
      Program.Reaches (serves failing) (op.work machines).run s rest t

/-- **What every operation keeps holds along a session:** `inv` in all its states, and `left` in
those that an operation has left. -/
theorem Session.induction (h : Session failing machines admits s) (inv left : Store → Prop)
    (hempty : inv .empty) (hleft : left .empty)
    (hstep : ∀ u op, inv u → admits op → left u →
      (op.work machines).run.Ensures (serves failing) inv (fun _ t => left t) u) :
    inv s ∧ left s := by
  induction h with
  | empty => exact ⟨hempty, hleft⟩
  | operation _ hop hrun ih =>
    have hensures := hstep _ _ ih.1 hop ih.2
    exact ⟨hensures.invariant_of_reaches hrun, hensures.post_of_reaches hrun⟩

theorem Session.mono {admits' : Operation → Prop} (h : Session failing machines admits s)
    (hadmits : ∀ op, admits op → admits' op) : Session failing machines admits' s := by
  induction h with
  | empty => exact .empty
  | operation _ hop hrun ih => exact .operation ih (hadmits _ hop) hrun

/-- What every operation keeps is seen in between as well. -/
theorem Observed.induction (h : Observed failing machines admits s) (inv : Store → Prop)
    (hempty : inv .empty)
    (hstep : ∀ u op, inv u → admits op →
      (op.work machines).run.Ensures (serves failing) inv (fun _ _ => True) u) : inv s := by
  obtain ⟨u, op, rest, hsession, hop, hrun⟩ := h
  have hu := (hsession.induction inv (fun _ => True) hempty trivial
    fun u op hu hop _ => hstep u op hu hop).1
  exact (hstep u op hu hop).invariant_of_reaches hrun

/-- Operations with names that are parts of keys. Any id may be unbound. -/
def Proper : Operation → Prop
  | .create machine t => Flat machine ∧ ValidId t.id
  | .delete _ => True

/-- One operation keeps the documents in order in every state that it passes through. -/
theorem Documented.ensures_work {op : Operation} (h : Documented machines s.contents)
    (hflat : ∀ m ∈ machines, Flat m) (hop : Proper op) :
    (op.work machines).run.Ensures (serves failing) (fun u => Documented machines u.contents)
      (fun _ _ => True) s := by
  cases op with
  | create machine t =>
    refine ensures_createTask h.filed hflat h (fun _ => trivial) fun u list hfree _ hw => ?_
    have hu : Documented machines u.contents := h.wrote_task (t := t.boundTo machine) hflat hop.1
      hop.2 (fun m hm => hfree m (List.mem_cons_of_mem _ hm)) hw
    exact ⟨hu, fun _ _ => trivial, fun v hv => ⟨hu.wrote_manifests hflat hop.1 hv, trivial⟩⟩
  | delete id =>
    refine ensures_deleteTask h hflat h (fun _ => trivial) fun machine hmachine u list _ _ hw => ?_
    have hu := h.wrote_manifests hflat (hflat machine hmachine) hw
    exact ⟨hu, fun _ _ => trivial, fun v hv => ⟨hu.dropped_task hv, trivial⟩⟩

/-- **The documents of a session stay in order,** also after calls that failed in the middle of an
operation. -/
theorem Session.documented (h : Session failing machines Proper s)
    (hflat : ∀ m ∈ machines, Flat m) :
    Documented machines s.contents :=
  (h.induction (fun u => Documented machines u.contents) (fun _ => True)
    (documented_empty machines) trivial fun _ _ hu hop _ => hu.ensures_work hflat hop).1

end ControlPlane.Registry
