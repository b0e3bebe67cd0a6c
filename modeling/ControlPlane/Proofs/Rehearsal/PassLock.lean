import ControlPlane.Proofs.Program.Ensures
import ControlPlane.Rehearsal.Wiring

/-!
# The lock on replication passes

The world keeps the lock on passes as the queue of the programs that want it, and the first of them
has it. Only two calls have to do with the queue, asking for the lock and giving it back. All other
calls leave it as it is, and do the same whatever it is.

The calls that a pass makes under the lock are of a few kinds. Of these only waiting for a moment
does not get its answer at once.

## Main definitions

* `WorldCall.OffPasses`: calls that have nothing to do with the lock on passes
* `WorldCall.Plain`: the calls that replicas are controlled by

## Main results

* `World.attempt_setLock`: other calls do the same whatever the queue is
* `Manager.asks_ofReplica`, `Manager.asks_ofManager`: which calls a manager makes
* `World.eq_waitUntil_of_attempt`: which of them waits
-/

namespace ControlPlane.Rehearsal

open Program WorldProgram

/-- A call that has nothing to do with the lock on passes. -/
def WorldCall.OffPasses (c : WorldCall) : Prop := c ≠ .acquire .passes ∧ c ≠ .release .passes

/-- A call that replicas are controlled by. None of them asks for a lock or gives one back. -/
def WorldCall.Plain : WorldCall → Prop
  | .store _ | .turn | .pick _ | .freshId | .now | .waitUntil _ | .note _ => True
  | _ => False

theorem WorldCall.Plain.offPasses {c : WorldCall} (h : c.Plain) : c.OffPasses := by
  constructor <;> rintro rfl <;> exact h

/-- Who is first in a queue stays the first when others join it. -/
theorem head?_join {l : Lock} {ticket ticket' : TicketId} (h : l.head? = some ticket) :
    (l.join ticket').head? = some ticket := by
  rw [Lock.join]
  split
  · exact h
  · rw [List.head?_append, h]
    rfl

namespace World

variable {w : World} {ticket : TicketId} {l : Lock} {c : WorldCall}

@[simp] theorem setLock_passLock (w : World) : w.setLock w.passLock .passes = w := rfl

/-- **Other calls do the same whatever the queue of the lock is,** and leave it as it is. -/
theorem attempt_setLock (hc : c.OffPasses) (w : World) (ticket : TicketId) (l : Lock) :
    (w.setLock l .passes).attempt ticket c =
      ((w.attempt ticket c).1, (w.attempt ticket c).2.setLock l .passes) := by
  cases c with
  | store c =>
    simp only [attempt, onFaultyStore, setLock]
    split <;> rfl
  | acquire lock =>
    cases lock with
    | passes => exact absurd rfl hc.1
    | pulls host => rfl
  | release lock =>
    cases lock with
    | passes => exact absurd rfl hc.2
    | pulls host => rfl
  | send feed manifests =>
    have hoffer : (w.setLock l .passes).onFeed feed (Feed.offer · manifests) =
        ((w.onFeed feed (Feed.offer · manifests)).1,
          (w.onFeed feed (Feed.offer · manifests)).2.setLock l .passes) := rfl
    rw [attempt, attempt, hoffer]
    obtain ⟨offered, v⟩ := w.onFeed feed (Feed.offer · manifests)
    cases offered <;> rfl
  | _ => rfl

theorem passLock_attempt (hc : c.OffPasses) (w : World) (ticket : TicketId) :
    (w.attempt ticket c).2.passLock = w.passLock := by
  have hsame := attempt_setLock hc w ticket w.passLock
  rw [setLock_passLock] at hsame
  rw [hsame]
  rfl

/-- The lock is given to the first in its queue. -/
theorem head?_of_acquire (h : (w.attempt ticket (.acquire .passes)).1.isSome = true) :
    (w.attempt ticket (.acquire .passes)).2.passLock.head? = some ticket := by
  by_cases hfirst : (w.passLock.join ticket).head? = some ticket
  · exact hfirst
  · have hnone : (w.attempt ticket (.acquire .passes)).1 = none := if_neg hfirst
    rw [hnone] at h
    cases h

theorem join_of_mem (h : ticket ∈ l) : l.join ticket = l :=
  if_pos (List.contains_iff_mem.mpr h)

/-- Who is in the queue may ask again, and does not lose its place. -/
theorem attempt_acquire_of_mem (h : ticket ∈ w.passLock) :
    (w.attempt ticket (.acquire .passes)).2 = w := by
  change w.setLock (w.passLock.join ticket) .passes = w
  rw [join_of_mem h, setLock_passLock]

/-- The first in the queue is given the lock, and stays the first. -/
theorem attempt_acquire_first (h : w.passLock = ticket :: l) :
    w.attempt ticket (.acquire .passes) = (some (), w) := by
  have hmem : ticket ∈ w.passLock := h ▸ List.mem_cons_self ..
  have hfirst : (w.attempt ticket (.acquire .passes)).1 = some () :=
    if_pos (by rw [lock, join_of_mem hmem, h]; rfl)
  exact Prod.ext hfirst (attempt_acquire_of_mem hmem)

theorem attempt_acquire_free (h : w.passLock = []) :
    w.attempt ticket (.acquire .passes) = (some (), w.setLock [ticket] .passes) := by
  have hjoin : w.passLock.join ticket = [ticket] := by rw [h]; rfl
  have hfirst : (w.attempt ticket (.acquire .passes)).1 = some () :=
    if_pos (by rw [lock, hjoin]; rfl)
  refine Prod.ext hfirst ?_
  change w.setLock (w.passLock.join ticket) .passes = _
  rw [hjoin]

theorem attempt_acquire_none {first : TicketId} (h : w.passLock.head? = some first)
    (hne : first ≠ ticket) : (w.attempt ticket (.acquire .passes)).1 = none := by
  refine if_neg ?_
  rw [lock, head?_join h]
  exact fun heq => hne (Option.some.inj heq)

/-- They do so at the end of the queue. -/
theorem attempt_acquire_behind {first : TicketId} {l : Lock} (h : w.passLock = first :: l)
    (hnew : ticket ∉ first :: l) :
    w.attempt ticket (.acquire .passes) =
      (none, w.setLock (first :: (l ++ [ticket])) .passes) := by
  have hjoin : w.passLock.join ticket = first :: (l ++ [ticket]) := by
    rw [h]
    exact if_neg (mt List.contains_iff_mem.mp hnew)
  have hne : first ≠ ticket := fun heq => hnew (heq ▸ List.mem_cons_self ..)
  refine Prod.ext (attempt_acquire_none (by rw [h]; rfl) hne) ?_
  change w.setLock (w.passLock.join ticket) .passes = _
  rw [hjoin]

/-- Of the calls that replicas are controlled by only a wait for a moment to come is not answered at
once, and then nothing has changed. -/
theorem eq_waitUntil_of_attempt (hc : c.Plain) (h : (w.attempt ticket c).1 = none) :
    ∃ moment, c = .waitUntil moment ∧ w.clock < moment := by
  cases c with
  | waitUntil moment =>
    refine ⟨moment, rfl, Nat.lt_of_not_le fun hle => ?_⟩
    simp [attempt, hle] at h
  | store c => cases h
  | turn => cases h
  | pick bound => cases h
  | freshId => cases h
  | now => cases h
  | note n => cases h
  | _ => exact hc.elim

end World

/-! ### The calls of a manager -/

theorem asks_wait (d : Span) : (wait d).Asks WorldCall.Plain fun _ => True :=
  ⟨trivial, fun _ => ⟨trivial, fun _ => trivial⟩⟩

theorem asks_ofControl (s : ManagerSettings) (c : ControlCall) {post : c.Answer → Prop}
    (hpost : ∀ a, post a) : (ofControl s c).Asks WorldCall.Plain post := by
  cases c with
  | cluster c => cases c <;> exact ⟨trivial, hpost⟩
  | freshId => exact ⟨trivial, hpost⟩
  | pause => exact (asks_wait s.creationDelay).mono fun a _ => hpost a

namespace Manager

theorem asks_carryOut (m : Manager) (c : ReplicaCall) :
    (m.carryOut c).Asks WorldCall.Plain fun _ => True :=
  asks_expand_of_forall (fun c _ hpost => asks_ofControl m.settings c hpost) _

/-- Replicas are controlled by plain calls, so the lock stays as it is between taking it and giving
it back. -/
theorem asks_ofReplica (m : Manager) (c : ReplicaCall) :
    (m.ofReplica c).Asks WorldCall.Plain fun _ => True := by
  rw [ofReplica]
  split
  · cases c with
    | create controller => exact ⟨trivial, fun _ => trivial⟩
    | delete id => exact ⟨trivial, fun _ => trivial⟩
    | list selector => exact m.asks_carryOut _
    | pause => exact m.asks_carryOut _
  · exact m.asks_carryOut c

theorem asks_ofManager (m : Manager) {c : ManagerCall} (hacquire : c ≠ .acquire)
    (hrelease : c ≠ .release) : (m.ofManager c).Asks WorldCall.OffPasses fun _ => True := by
  cases c with
  | store c => exact ⟨⟨nofun, nofun⟩, fun _ => trivial⟩
  | replica c => exact (m.asks_ofReplica c).mono_calls fun _ h => h.offPasses
  | acquire => exact absurd rfl hacquire
  | release => exact absurd rfl hrelease
  | wait d => exact (asks_wait d).mono_calls fun _ h => h.offPasses
  | receive w =>
    refine ⟨⟨nofun, nofun⟩, fun found => ?_⟩
    cases found <;> trivial

end Manager

end ControlPlane.Rehearsal
