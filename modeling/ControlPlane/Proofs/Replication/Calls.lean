import ControlPlane.Proofs.Program.Exchanges
import ControlPlane.Proofs.Task
import ControlPlane.Rehearsal.Wiring

/-!
# The calls of a replication pass

Which calls a pass makes is decided by the one listing at its beginning. Whatever tasks are listed,
the pass compares the number of those that have not terminated with the number that its controller
wants, and then does one of three things. If too few are live it creates exactly the missing number,
with one pause between each two creations, and takes no notice of what becomes of them. If too many
are live it deletes from the head of the list, and the first deletion that fails is its last call.
If the numbers agree it makes no further call. A listing that fails is the whole pass.

Nothing is assumed of the cluster behind these calls: it may answer anything, at any time.

## Main definitions

* `Replication.adjust`: what follows from the live tasks
* `Replication.creations`, `Replication.Deletes`: the exchanges by which the number is made up
* `Replication.Reports`: the exchanges of a pass, with its result

## Main results

* `Replication.pass_eq`: a pass as a listing and what follows from it
* `Replication.tells_pass`: the exchanges of every pass
* `Replication.reconcile_calls`: the same under the lock, with the length of the pause
-/

namespace ControlPlane.Replication

open Program

/-- The tasks of a listing that have not terminated, in its order. -/
def liveOf (tasks : List Task) : List Task := tasks.filter fun t => ¬ t.HasEnded

/-- The number of live tasks that a controller wants. -/
def wantedBy (c : Controller) : Nat := c.desiredState.replicas.toNat

/-- What a pass does when the live tasks are known. One of the two numbers is zero, so it either
makes up for what is missing or takes away what is too much. -/
def adjust (c : Controller) (tasks : List Task) : Work replicaCalls Outcome := do
  ExceptT.lift (createMissing c (wantedBy c - tasks.length))
  deleteSurplus (tasks.take (tasks.length - wantedBy c))
  return { created := wantedBy c - tasks.length, deleted := tasks.length - wantedBy c }

/-- **A pass is one listing, and what its live tasks make of it.** Whatever is shown of passes
begins here, so that the test for live tasks is looked at in this place only. -/
theorem pass_eq (c : Controller) :
    pass c = ExceptT.mk (ask (I := replicaCalls) (.list c.desiredState.replicaSelector)) >>=
      fun (tasks : List Task) => adjust c (liveOf tasks) := by
  simp only [pass, ← filter_not_hasEnded]
  rfl

/-- Listing the tasks that a controller selects, with what is answered. -/
def listing (c : Controller) (answer : Except Error (List Task)) : Exchange replicaCalls :=
  ⟨.list c.desiredState.replicaSelector, answer⟩

/-- The creation of a replica. What became of it is not told. -/
def creating (c : Controller) : Exchange replicaCalls := ⟨.create c, ()⟩

/-- The pause between two creations, which has nothing to tell. -/
def pausing : Exchange replicaCalls := ⟨.pause, ()⟩

/-- The deletion of a task, by its id. -/
def deleting (t : Task) (answer : Except Error Unit) : Exchange replicaCalls :=
  ⟨.delete t.id, answer⟩

/-- So many creations, with one pause between each two of them, and none elsewhere. -/
def creations (c : Controller) (missing : Nat) : List (Exchange replicaCalls) :=
  (List.replicate missing (creating c)).intersperse pausing

/-- Deleting tasks in order: all of them, or up to and including the first that cannot be
deleted. -/
inductive Deletes : List Task → List (Exchange replicaCalls) → Except Error Unit → Prop
  | all (surplus : List Task) :
      Deletes surplus (surplus.map fun t => deleting t (.ok ())) (.ok ())
  | upTo (before : List Task) (t : Task) (after : List Task) (e : Error) :
      Deletes (before ++ t :: after)
        ((before.map fun t => deleting t (.ok ())) ++ [deleting t (.error e)]) (.error e)

/-- The exchanges of a pass for a controller, with its result. -/
inductive Reports (c : Controller) :
    List (Exchange replicaCalls) → Except Error Outcome → Prop
  /-- The tasks cannot be listed. -/
  | unlisted (e : Error) : Reports c [listing c (.error e)] (.error e)
  /-- Too few are live. -/
  | short (tasks : List Task) (h : (liveOf tasks).length < wantedBy c) :
      Reports c
        (listing c (.ok tasks) :: creations c (wantedBy c - (liveOf tasks).length))
        (.ok ⟨wantedBy c - (liveOf tasks).length, 0⟩)
  /-- As many are live as are wanted. -/
  | even (tasks : List Task) (h : (liveOf tasks).length = wantedBy c) :
      Reports c [listing c (.ok tasks)] (.ok ⟨0, 0⟩)
  /-- Too many are live. -/
  | surplus (tasks : List Task) (h : wantedBy c < (liveOf tasks).length)
      {log : List (Exchange replicaCalls)} {r : Except Error Unit}
      (hlog : Deletes ((liveOf tasks).take ((liveOf tasks).length - wantedBy c)) log r) :
      Reports c (listing c (.ok tasks) :: log)
        (r.map fun _ => ⟨0, (liveOf tasks).length - wantedBy c⟩)

theorem Deletes.cons {surplus : List Task} {log : List (Exchange replicaCalls)}
    {r : Except Error Unit} (h : Deletes surplus log r) (t : Task) :
    Deletes (t :: surplus) (deleting t (.ok ()) :: log) r := by
  cases h with
  | all => exact .all (t :: surplus)
  | upTo before t' after e => exact .upTo (t :: before) t' after e

theorem Deletes.of_nil {log : List (Exchange replicaCalls)} {r : Except Error Unit}
    (h : Deletes [] log r) : log = [] ∧ r = .ok () := by
  generalize hnil : ([] : List Task) = surplus at h
  cases h with
  | all => exact ⟨by rw [← hnil]; rfl, rfl⟩
  | upTo before t after e => exact absurd hnil.symm (List.append_ne_nil_of_right_ne_nil _ (by simp))

theorem tells_createMissing (c : Controller) (missing : Nat) :
    (createMissing c missing).Tells fun _ log => log = creations c missing := by
  fun_induction createMissing c missing with
  | case1 => rfl
  | case2 => exact fun _ => rfl
  | case3 missing ih =>
    refine fun _ _ => ih.mono ?_
    rintro _ log rfl
    rfl

theorem tells_deleteSurplus (surplus : List Task) :
    (deleteSurplus surplus).run.Tells fun r log => Deletes surplus log r := by
  induction surplus with
  | nil => exact .all []
  | cons t surplus ih =>
    refine Work.tells_bind.mpr ?_
    rintro (e | _)
    · exact .upTo [] t surplus e
    · exact ih.mono fun r log h => h.cons t

/-- Of the two differences one is zero, so a pass never both creates and deletes. -/
theorem Deletes.reports {c : Controller} {tasks : List Task} {log : List (Exchange replicaCalls)}
    {r : Except Error Unit}
    (h : Deletes ((liveOf tasks).take ((liveOf tasks).length - wantedBy c)) log r) :
    Reports c (listing c (.ok tasks) :: (creations c (wantedBy c - (liveOf tasks).length) ++ log))
      (r.map fun _ =>
        ⟨wantedBy c - (liveOf tasks).length, (liveOf tasks).length - wantedBy c⟩) := by
  rcases Nat.lt_trichotomy (wantedBy c) (liveOf tasks).length with hlt | heq | hgt
  · rw [Nat.sub_eq_zero_of_le (Nat.le_of_lt hlt)]
    exact .surplus tasks hlt h
  · rw [heq, Nat.sub_self] at h ⊢
    obtain ⟨rfl, rfl⟩ := h.of_nil
    exact .even tasks heq.symm
  · rw [Nat.sub_eq_zero_of_le (Nat.le_of_lt hgt)] at h ⊢
    obtain ⟨rfl, rfl⟩ := h.of_nil
    rw [List.append_nil]
    exact .short tasks hgt

/-- **The calls of a pass,** whatever is answered. The cases are those of the comparison, and of a
listing that fails. -/
theorem tells_pass (c : Controller) : (pass c).run.Tells fun r log => Reports c log r := by
  rw [pass_eq]
  refine Work.tells_bind.mpr ?_
  rintro (e | tasks)
  · exact .unlisted e
  refine Work.tells_bind.mpr (Work.tells_lift.mpr ((tells_createMissing c _).mono ?_))
  rintro _ log rfl
  refine Work.tells_bind.mpr ((tells_deleteSurplus _).mono fun r log h => ?_)
  have hreports := Deletes.reports h
  cases r with
  | error e => exact hreports
  | ok _ =>
    change Reports c (_ :: (_ ++ (log ++ []))) _
    rw [List.append_nil]
    exact hreports

/-- A call of a pass, made by the manager. -/
def asManager (x : Exchange replicaCalls) : Exchange managerCalls := ⟨.replica x.call, x.answer⟩

/-- The pause between two creations reads the clock once and waits until it shows the delay of the
settings more, whether the manager creates the replicas or only writes them down. Nothing else is
asked of the world meanwhile, and in particular no lock is taken or given back. -/
theorem ofReplica_pause (m : Rehearsal.Manager) :
    m.ofReplica .pause = .call .now fun (now : Moment) =>
      .call (.waitUntil (now + m.settings.creationDelay.toNanos)) fun _ => .done () := by
  rw [Rehearsal.Manager.ofReplica]
  split
  · rfl
  · rfl

/-- **What a reconciliation asks for.** With any partner and from any state of it, the manager takes
the lock, makes the calls of the pass as `Reports` has them, and gives the lock back; and a pause
reads the clock and waits until the moment that is the delay of its settings later. -/
theorem reconcile_calls {σ : Type} (handle : (c : ManagerCall) → σ → c.Answer × σ)
    (c : Controller) (e : σ) :
    (∃ log, (reconcile c).exchanges handle e =
        ⟨.acquire, ()⟩ :: (log.map asManager ++ [⟨.release, ()⟩]) ∧
      Reports c log ((reconcile c).run handle e).1) ∧
    ∀ m : Rehearsal.Manager,
      m.ofReplica .pause = .call .now fun (now : Moment) =>
        .call (.waitUntil (now + m.settings.creationDelay.toNanos)) fun _ => .done () := by
  refine ⟨?_, ofReplica_pause⟩
  have htells : (reconcile c).Tells fun r log => ∃ log',
      log = ⟨.acquire, ()⟩ :: (log'.map asManager ++ [⟨.release, ()⟩]) ∧ Reports c log' r := by
    have hpass : ((pass c).run.expand fun call => ask (I := managerCalls) (.replica call)).Tells
        fun r log => ∃ log', log = log'.map asManager ∧ Reports c log' r :=
      (tells_pass c).expand asManager fun _ _ h => tells_ask.mpr h
    refine tells_bind.mpr (tells_ask.mpr fun _ => ?_)
    refine tells_bind.mpr (hpass.mono ?_)
    rintro r log ⟨log', rfl, hreports⟩ _
    exact ⟨log', rfl, hreports⟩
  exact htells.of_run handle e

end ControlPlane.Replication
