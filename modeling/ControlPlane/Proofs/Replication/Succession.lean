import ControlPlane.Proofs.Replication.Exclusion
import Mathlib.Data.List.Basic
import Mathlib.Logic.Hydra
import Mathlib.Logic.Relation

/-!
# Passes that are started together

Passes that are started together, in some order, ask for the lock in this order and are given it in
this order. So it comes to the same as making them one after the other: each has the same result,
the same is left of the world, and the clock has moved as far.

`Lineup` is how passes are started together. They begin one by one, while those that have begun go
on call by call, in any turns; only when all have begun and each of them has to wait, the clock
moves, to the first moment for which one of them waits. Nothing else acts on the world. Making
passes one after the other is a line-up of one pass, then of the next one, and so on.

The turns that a line-up takes do not matter, because at any time only one pass can go on: the one
that is the first in the queue of the lock. It does what it does alone. That the queue is longer
then is not seen by it, and the clock moves as it does alone, since nobody else waits for a moment.

## Main definitions

* `Rehearsal.Lineup`, `Rehearsal.Lineup.Move`: passes that are started together, and what can happen
* `Rehearsal.Lineup.ComesTo`: results and the world to which passes come that are started together
* `Rehearsal.Manager.OneByOne`: those to which they come one after the other
* `Rehearsal.Stage`: where a line-up may be

## Main results

* `Rehearsal.Stage.move`: the moves of a line-up
* `Rehearsal.passes_serial`: passes are made one after the other
-/

namespace ControlPlane.Rehearsal

open Program WorldProgram Replication Relation

/-- A pass that is to be made: the number of its program, and its controller. -/
abbrev PlannedPass := TicketId × Controller

/-- The result of a pass. -/
abbrev PassResult := Except Error Outcome

/-- The program of a pass, under the number of the one that makes it. -/
def Manager.job (m : Manager) (x : PlannedPass) : Job PassResult :=
  ⟨x.1, (reconcile x.2).expand m.ofManager⟩

/-! ### Line-ups -/

/-- Passes that are started together: those that have not begun yet, in order, what is left of those
that have begun, and the world. -/
structure Lineup where
  coming : List (Job PassResult)
  begun : List (Job PassResult)
  world : World

/-- A program tries to make its first call. If it has to wait for the lock, it is in the queue from
then on. -/
def World.tried (w : World) (job : Job PassResult) : Job PassResult × World :=
  match job.program with
  | .done _ => (job, w)
  | .call c next =>
    match w.attempt job.id c with
    | (some a, v) => (⟨job.id, next a⟩, v)
    | (none, v) => (job, v)

/-- Some pass that has begun need not wait. As long as there is one, time stands still. -/
def Lineup.CanGoOn (l : Lineup) : Prop :=
  ∃ (ticket : TicketId) (c : WorldCall) (next : c.Answer → WorldProgram PassResult),
    ⟨ticket, .call c next⟩ ∈ l.begun ∧ (l.world.attempt ticket c).1 ≠ none

/-- What can happen in a line-up. Any pass that need not wait may go on, so nothing is assumed about
the schedule. -/
inductive Lineup.Move : Lineup → Lineup → Prop
  | begins {l : Lineup} {job : Job PassResult} {coming : List (Job PassResult)} :
      l.coming = job :: coming →
      Move l ⟨coming, l.begun ++ [(l.world.tried job).1], (l.world.tried job).2⟩
  | goesOn {l : Lineup} {before after : List (Job PassResult)} {ticket : TicketId} {c : WorldCall}
      {next : c.Answer → WorldProgram PassResult} {a : c.Answer} {v : World} :
      l.begun = before ++ ⟨ticket, .call c next⟩ :: after →
      l.world.attempt ticket c = (some a, v) →
      Move l ⟨l.coming, before ++ ⟨ticket, next a⟩ :: after, v⟩
  /-- The clock only moves when everything waits. -/
  | ticks {l : Lineup} {moment : Moment} : l.coming = [] → ¬ l.CanGoOn →
      nextMoment? l.begun {} = some moment →
      Move l ⟨[], l.begun, { l.world with clock := moment }⟩

/-- The line-up can come to these results, and leaves this world then. -/
def Lineup.ComesTo (l : Lineup) (results : List PassResult) (v : World) : Prop :=
  ∃ ended, ReflTransGen Lineup.Move l ⟨[], ended, v⟩ ∧ ended.map Job.result? = results.map some

/-- Passes that are about to start together. -/
def Manager.lineup (m : Manager) (passes : List PlannedPass) (w : World) : Lineup :=
  ⟨passes.map m.job, [], w⟩

/-- Passes are made one after the other, each of them as `one` says. -/
inductive InOrder (one : PlannedPass → World → PassResult → World → Prop) :
    List PlannedPass → World → List PassResult → World → Prop
  | nil {w : World} : InOrder one [] w [] w
  | cons {x : PlannedPass} {passes : List PlannedPass} {w u v : World} {r : PassResult}
      {results : List PassResult} : one x w r u → InOrder one passes u results v →
      InOrder one (x :: passes) w (r :: results) v

/-- Passes are started one after the other, each when the one before it is over. -/
def Manager.OneByOne (m : Manager) : List PlannedPass → World → List PassResult → World → Prop :=
  InOrder fun x w r v => (m.lineup [x] w).ComesTo [r] v

/-! ### A pass alone -/

/-- How a call is answered when nothing else is under way: for a moment to come the clock moves. -/
inductive Alone (ticket : TicketId) : (c : WorldCall) → World → c.Answer → World → Prop
  | answered {c : WorldCall} {w v : World} {a : c.Answer} :
      w.attempt ticket c = (some a, v) → Alone ticket c w a v
  | waited {w : World} {moment : Moment} : w.clock < moment →
      Alone ticket (.waitUntil moment) w () { w with clock := moment }

/-- The steps of a program when nothing else is under way. -/
abbrev alone (ticket : TicketId) : worldCalls.Steps World := Alone ticket

/-- What a pass does under the lock, without taking it and giving it back. -/
def Manager.body (m : Manager) (c : Controller) : WorldProgram PassResult :=
  ((pass c).run.expand fun call => Program.ask (I := managerCalls) (.replica call)).expand
    m.ofManager

/-- What a pass does in the end. -/
def giveBack (r : PassResult) : WorldProgram PassResult := .call (.release .passes) fun _ => .done r

/-- A pass when nothing else is under way: it finds the lock free, and leaves it free. -/
def Manager.Solo (m : Manager) (x : PlannedPass) (w : World) (r : PassResult) (v : World) : Prop :=
  ∃ u, Reaches (alone x.1) (m.body x.2) (w.setLock [x.1] .passes) (.done r) u ∧
    v = u.setLock [] .passes

section

variable {m : Manager} {x : PlannedPass} {w u v : World} {ticket : TicketId} {c : WorldCall}

theorem program_job (m : Manager) (x : PlannedPass) :
    (m.job x).program = .call (.acquire .passes) fun _ => (m.body x.2).bind giveBack := by
  have hexpand := expand_bind (I := managerCalls) m.ofManager
    ((pass x.2).run.expand fun call => Program.ask (I := managerCalls) (.replica call))
    fun outcome => .call (I := managerCalls) .release fun _ => .done outcome
  exact congrArg (fun p => Program.call (I := worldCalls) (.acquire .passes) fun _ => p) hexpand

theorem job_eq (m : Manager) (x : PlannedPass) :
    m.job x = ⟨x.1, .call (.acquire .passes) fun _ => (m.body x.2).bind giveBack⟩ :=
  congrArg (Job.mk x.1) (program_job m x)

theorem asks_body (m : Manager) (c : Controller) :
    (m.body c).Asks WorldCall.Plain fun _ => True := by
  have hasks : ((pass c).run.expand fun call => ask (I := managerCalls) (.replica call)).Asks
      (fun c : ManagerCall => ∃ r, c = .replica r) fun _ => True := by
    refine asks_expand_of_forall (fun c post h => ?_) (pass c).run
    exact ⟨⟨c, rfl⟩, h⟩
  refine asks_expand (I := managerCalls) (fun c post hc h => ?_) hasks
  obtain ⟨r, rfl⟩ := hc
  exact (m.asks_ofReplica r).mono fun a _ => h a

theorem attempt_waitUntil_of_lt {moment : Moment} (h : w.clock < moment) :
    w.attempt ticket (.waitUntil moment) = (none, w) :=
  Prod.ext (if_neg (Nat.not_le_of_lt h)) rfl

theorem attempt_waitUntil_of_le {moment : Moment} (h : moment ≤ w.clock) :
    w.attempt ticket (.waitUntil moment) = (some (), w) :=
  Prod.ext (if_pos h) rfl

theorem Alone.unique {a a' : c.Answer} (h : Alone ticket c w a u) (h' : Alone ticket c w a' v) :
    a = a' ∧ u = v := by
  cases h with
  | answered hattempt =>
    cases h' with
    | answered hattempt' =>
      have heq := Prod.mk.inj (hattempt.symm.trans hattempt')
      exact ⟨Option.some.inj heq.1, heq.2⟩
    | waited hlt =>
      rw [attempt_waitUntil_of_lt hlt] at hattempt
      cases hattempt
  | waited hlt =>
    cases h' with
    | answered hattempt =>
      rw [attempt_waitUntil_of_lt hlt] at hattempt
      cases hattempt
    | waited => exact ⟨rfl, rfl⟩

end

/-! ### Where a line-up may be -/

/-- What is left of passes that are over. -/
def ended (past : List PlannedPass) (results : List PassResult) : List (Job PassResult) :=
  List.zipWith (fun x r => ⟨x.1, .done r⟩) past results

/-- The queue of the lock when one pass has it and others wait. -/
def queueOf (x : PlannedPass) (queue : List PlannedPass) : Lock := x.1 :: queue.map Prod.fst

/-- Some passes are over, as if they had been made alone, and it is the turn of the next one. -/
structure Turn (m : Manager) (passes : List PlannedPass) (w : World) (past : List PlannedPass)
    (x : PlannedPass) (later : List PlannedPass) (results : List PassResult) (u : World) :
    Prop where
  planned : passes = past ++ x :: later
  past : InOrder m.Solo past w results u
  free : u.passLock = []

/-- Where a line-up may be. One pass at most is at its turn, and it is where it would be if it were
alone, apart from the others behind it in the queue. -/
inductive Stage (m : Manager) (passes : List PlannedPass) (w : World) : Lineup → Prop
  /-- All passes that have begun are over. -/
  | settled {past coming : List PlannedPass} {results : List PassResult} {u : World} :
      passes = past ++ coming → InOrder m.Solo past w results u → u.passLock = [] →
      Stage m passes w ⟨coming.map m.job, ended past results, u⟩
  /-- A pass is the first in the queue and has not taken the lock yet. -/
  | given {past queue coming : List PlannedPass} {x : PlannedPass} {results : List PassResult}
      {u : World} : Turn m passes w past x (queue ++ coming) results u →
      Stage m passes w ⟨coming.map m.job, ended past results ++ m.job x :: queue.map m.job,
        u.setLock (queueOf x queue) .passes⟩
  /-- A pass has the lock. -/
  | inside {past queue coming : List PlannedPass} {x : PlannedPass} {results : List PassResult}
      {u v : World} {rest : WorldProgram PassResult} :
      Turn m passes w past x (queue ++ coming) results u →
      rest.Asks WorldCall.Plain (fun _ => True) →
      Reaches (alone x.1) (m.body x.2) (u.setLock [x.1] .passes) rest v →
      Stage m passes w ⟨coming.map m.job,
        ended past results ++ ⟨x.1, rest.bind giveBack⟩ :: queue.map m.job,
        v.setLock (queueOf x queue) .passes⟩
  /-- The moment has come for which a pass waits that has the lock. -/
  | woken {past queue : List PlannedPass} {x : PlannedPass} {results : List PassResult}
      {u v : World} {moment : Moment} {next : Unit → WorldProgram PassResult} :
      Turn m passes w past x queue results u →
      (next ()).Asks WorldCall.Plain (fun _ => True) →
      Reaches (alone x.1) (m.body x.2) (u.setLock [x.1] .passes)
        (.call (.waitUntil moment) next) v →
      v.clock < moment →
      Stage m passes w ⟨[],
        ended past results ++
          ⟨x.1, .call (.waitUntil moment) fun a => (next a).bind giveBack⟩ :: queue.map m.job,
        { v.setLock (queueOf x queue) .passes with clock := moment }⟩

section

variable {m : Manager} {passes past queue coming later : List PlannedPass} {x y : PlannedPass}
  {results : List PassResult} {u v w : World} {l l' : Lineup} {ticket : TicketId} {c : WorldCall}
  {next : c.Answer → WorldProgram PassResult}

theorem tried_of_none {job : Job PassResult} (hjob : job.program = .call c next)
    (h : w.attempt job.id c = (none, v)) : w.tried job = (job, v) := by
  rw [World.tried, hjob]
  dsimp only
  rw [h]

theorem tried_of_some {job : Job PassResult} {a : c.Answer} (hjob : job.program = .call c next)
    (h : w.attempt job.id c = (some a, v)) : w.tried job = (⟨job.id, next a⟩, v) := by
  rw [World.tried, hjob]
  dsimp only
  rw [h]

theorem isSome_result?_of_mem_ended {job : Job PassResult} (h : job ∈ ended past results) :
    job.result?.isSome = true := by
  induction past generalizing results with
  | nil => cases h
  | cons x past ih =>
    cases results with
    | nil => cases h
    | cons r results =>
      rcases List.mem_cons.mp h with rfl | h
      · rfl
      · exact ih h

theorem not_mem_ended : (⟨ticket, .call c next⟩ : Job PassResult) ∉ ended past results :=
  fun h => Bool.false_ne_true (isSome_result?_of_mem_ended h)

theorem eq_or_mem_queue {job : Job PassResult}
    (h : ⟨ticket, .call c next⟩ ∈ ended past results ++ job :: queue.map m.job) :
    ⟨ticket, .call c next⟩ = job ∨ ⟨ticket, .call c next⟩ ∈ queue.map m.job :=
  List.mem_cons.mp ((List.mem_append.mp h).resolve_left not_mem_ended)

/-- The first in the queue can take the lock. -/
theorem attempt_given (u : World) (x : PlannedPass) (queue : List PlannedPass) :
    (u.setLock (queueOf x queue) .passes).attempt x.1 (.acquire .passes) =
      (some (), u.setLock (queueOf x queue) .passes) :=
  World.attempt_acquire_first rfl

/-- The others wait for the lock. -/
theorem attempt_of_mem_queue (hfirst : w.passLock.head? = some x.1)
    (hx : (x.1 :: queue.map Prod.fst).Nodup)
    (h : ⟨ticket, .call c next⟩ ∈ queue.map m.job) : (w.attempt ticket c).1 = none := by
  obtain ⟨y, hy, hjob⟩ := List.mem_map.mp h
  obtain rfl : y.1 = ticket := congrArg Job.id hjob
  have hprogram := (program_job m y).symm.trans (congrArg Job.program hjob)
  obtain ⟨rfl, -⟩ := Program.call.inj hprogram
  refine World.attempt_acquire_none hfirst fun heq => ?_
  exact (List.nodup_cons.mp hx).1 (heq ▸ List.mem_map_of_mem hy)

/-- A list with one element pointed at, and its parts. -/
theorem append_cons_eq_append_cons {α : Type} {before after A B : List α} {a b : α}
    (h : before ++ a :: after = A ++ b :: B) :
    a ∈ A ∨ a ∈ B ∨ (before = A ∧ a = b ∧ after = B) := by
  rcases List.append_eq_append_iff.mp h with ⟨mid, rfl, hmid⟩ | ⟨mid, rfl, hmid⟩
  · cases mid with
    | nil =>
      obtain ⟨rfl, rfl⟩ := List.cons.inj hmid
      exact .inr (.inr ⟨(List.append_nil _).symm, rfl, rfl⟩)
    | cons d mid =>
      obtain ⟨rfl, -⟩ := List.cons.inj hmid
      exact .inl (List.mem_append_right _ (List.mem_cons_self ..))
  · cases mid with
    | nil =>
      obtain ⟨rfl, rfl⟩ := List.cons.inj hmid
      exact .inr (.inr ⟨List.append_nil _, rfl, rfl⟩)
    | cons d mid =>
      obtain ⟨rfl, rfl⟩ := List.cons.inj hmid
      exact .inr (.inl (List.mem_append_right _ (List.mem_cons_self ..)))

theorem Turn.distinct (h : Turn m passes w past x later results u)
    (hdistinct : (passes.map Prod.fst).Nodup) : (x.1 :: later.map Prod.fst).Nodup := by
  rw [h.planned, List.map_append, List.map_cons] at hdistinct
  exact (List.nodup_append.mp hdistinct).2.1

/-- While a pass is at its turn only that pass can go on. -/
theorem eq_of_goesOn {before after : List (Job PassResult)} {job : Job PassResult} {a : c.Answer}
    (hx : (x.1 :: queue.map Prod.fst).Nodup) (hfirst : w.passLock.head? = some x.1)
    (hbegun : ended past results ++ job :: queue.map m.job =
      before ++ ⟨ticket, .call c next⟩ :: after)
    (hattempt : w.attempt ticket c = (some a, v)) :
    before = ended past results ∧ ⟨ticket, .call c next⟩ = job ∧ after = queue.map m.job := by
  rcases append_cons_eq_append_cons hbegun.symm with hmem | hmem | heq
  · exact absurd hmem not_mem_ended
  · have hwaits := attempt_of_mem_queue hfirst hx hmem
    rw [hattempt] at hwaits
    cases hwaits
  · exact heq

/-- A pass that begins while another one is at its turn joins the queue. -/
theorem tried_behind (hlock : w.passLock = queueOf x queue) (hnew : y.1 ∉ queueOf x queue) :
    w.tried (m.job y) = (m.job y, w.setLock (queueOf x (queue ++ [y])) .passes) := by
  have hattempt := World.attempt_acquire_behind hlock hnew
  rw [queueOf, List.map_append]
  exact tried_of_none (program_job m y) hattempt

/-- So it does while the pass is under way. -/
theorem Turn.not_mem_queueOf (h : Turn m passes w past x (queue ++ y :: coming) results u)
    (hdistinct : (passes.map Prod.fst).Nodup) : y.1 ∉ queueOf x queue := by
  have hnodup := h.distinct hdistinct
  rw [List.map_append, ← List.cons_append] at hnodup
  exact fun hmem => (List.nodup_append.mp hnodup).2.2 _ hmem _ (List.mem_cons_self ..) rfl

theorem Turn.queue_distinct (h : Turn m passes w past x (queue ++ coming) results u)
    (hdistinct : (passes.map Prod.fst).Nodup) : (x.1 :: queue.map Prod.fst).Nodup := by
  have hnodup := h.distinct hdistinct
  rw [List.map_append, ← List.cons_append] at hnodup
  exact (List.nodup_append.mp hnodup).1

/-! ### Moves -/

theorem Lineup.Move.answered {coming before after : List (Job PassResult)} {a : c.Answer}
    (h : u.attempt ticket c = (some a, v)) :
    Lineup.Move ⟨coming, before ++ ⟨ticket, .call c next⟩ :: after, u⟩
      ⟨coming, before ++ ⟨ticket, next a⟩ :: after, v⟩ :=
  .goesOn (l := ⟨coming, before ++ ⟨ticket, .call c next⟩ :: after, u⟩) rfl h

theorem InOrder.snoc {one : PlannedPass → World → PassResult → World → Prop} {r : PassResult}
    (h : InOrder one past w results u) (hone : one x u r v) :
    InOrder one (past ++ [x]) w (results ++ [r]) v := by
  induction h with
  | nil => exact .cons hone .nil
  | cons hfirst _ ih => exact .cons hfirst (ih hone)

theorem InOrder.length_eq {one : PlannedPass → World → PassResult → World → Prop}
    (h : InOrder one past w results u) : past.length = results.length := by
  induction h with
  | nil => rfl
  | cons _ _ ih => exact congrArg Nat.succ ih

theorem ended_snoc {r : PassResult} (hlength : past.length = results.length) :
    ended (past ++ [x]) (results ++ [r]) = ended past results ++ [⟨x.1, .done r⟩] :=
  List.zipWith_append hlength

theorem Stage.begins {job : Job PassResult} {rest : List (Job PassResult)}
    (hdistinct : (passes.map Prod.fst).Nodup) (h : Stage m passes w l)
    (hcoming : l.coming = job :: rest) :
    Stage m passes w ⟨rest, l.begun ++ [(l.world.tried job).1], (l.world.tried job).2⟩ := by
  have hlist : ∀ (past : List (Job PassResult)) (job : Job PassResult) (queue : List PlannedPass)
      (y : PlannedPass), past ++ job :: queue.map m.job ++ [m.job y] =
        past ++ job :: (queue ++ [y]).map m.job := by
    intro past job queue y
    rw [List.append_assoc, List.cons_append, List.map_append]
    rfl
  cases h with
  | @settled past coming results u hplanned hpast hfree =>
    obtain ⟨y, coming, rfl, rfl, rfl⟩ := List.map_eq_cons_iff.mp hcoming
    rw [tried_of_some (program_job m y) (World.attempt_acquire_free hfree)]
    have hturn : Turn m passes w past y ([] ++ coming) results u := ⟨hplanned, hpast, hfree⟩
    exact (Stage.inside hturn (asks_body m y.2) .start :)
  | given hturn =>
    obtain ⟨y, coming, rfl, rfl, rfl⟩ := List.map_eq_cons_iff.mp hcoming
    rw [tried_behind rfl (hturn.not_mem_queueOf hdistinct), hlist]
    rw [List.append_cons] at hturn
    exact (Stage.given hturn :)
  | inside hturn hasks hreaches =>
    obtain ⟨y, coming, rfl, rfl, rfl⟩ := List.map_eq_cons_iff.mp hcoming
    rw [tried_behind rfl (hturn.not_mem_queueOf hdistinct), hlist]
    rw [List.append_cons] at hturn
    exact (Stage.inside hturn hasks hreaches :)
  | woken => cases hcoming

/-- A pass that gives the lock back is over, and the next one is at its turn. -/
theorem Turn.ends {r : PassResult} (h : Turn m passes w past x (queue ++ coming) results u)
    (hreaches : Reaches (alone x.1) (m.body x.2) (u.setLock [x.1] .passes) (.done r) v) :
    Stage m passes w ⟨coming.map m.job, ended past results ++ ⟨x.1, .done r⟩ :: queue.map m.job,
      v.setLock (queue.map Prod.fst) .passes⟩ := by
  have hpast := h.past.snoc (⟨v, hreaches, rfl⟩ : m.Solo x u r (v.setLock [] .passes))
  have hended := ended_snoc (x := x) (r := r) h.past.length_eq
  have hplanned := h.planned
  rw [List.append_cons] at hplanned ⊢
  rw [← hended]
  cases queue with
  | nil =>
    rw [List.map_nil, List.append_nil]
    exact .settled hplanned hpast rfl
  | cons y queue =>
    have hturn : Turn m passes w (past ++ [x]) y (queue ++ coming) (results ++ [r])
        (v.setLock [] .passes) := ⟨hplanned, hpast, rfl⟩
    exact (Stage.given hturn :)

theorem Stage.goesOn {before after : List (Job PassResult)} {a : c.Answer}
    (hdistinct : (passes.map Prod.fst).Nodup) (h : Stage m passes w l)
    (hbegun : l.begun = before ++ ⟨ticket, .call c next⟩ :: after)
    (hattempt : l.world.attempt ticket c = (some a, v)) :
    Stage m passes w ⟨l.coming, before ++ ⟨ticket, next a⟩ :: after, v⟩ := by
  cases h with
  | settled =>
    exact absurd (hbegun ▸ List.mem_append_right _ (List.mem_cons_self ..)) not_mem_ended
  | @given past queue coming x results u hturn =>
    obtain ⟨rfl, hjob, rfl⟩ :=
      eq_of_goesOn (hturn.queue_distinct hdistinct) (by rfl) hbegun hattempt
    obtain rfl : ticket = x.1 := congrArg Job.id hjob
    have hprogram := (congrArg Job.program hjob).trans (program_job m x)
    obtain ⟨rfl, hnext⟩ := Program.call.inj hprogram
    obtain rfl := eq_of_heq hnext
    obtain ⟨-, rfl⟩ := Prod.mk.inj ((attempt_given u x queue).symm.trans hattempt)
    exact (Stage.inside hturn (asks_body m x.2) .start :)
  | @inside past queue coming x results u v' rest hturn hasks hreaches =>
    obtain ⟨rfl, hjob, rfl⟩ :=
      eq_of_goesOn (hturn.queue_distinct hdistinct) (by rfl) hbegun hattempt
    obtain rfl : ticket = x.1 := congrArg Job.id hjob
    have hprogram := congrArg Job.program hjob
    cases rest with
    | done r =>
      obtain ⟨rfl, hnext⟩ := Program.call.inj hprogram
      obtain rfl := eq_of_heq hnext
      obtain ⟨-, rfl⟩ := Prod.mk.inj hattempt
      exact (hturn.ends hreaches :)
    | call c' next' =>
      obtain ⟨rfl, hnext⟩ := Program.call.inj hprogram
      obtain rfl := eq_of_heq hnext
      have hplain : c.Plain := hasks.1
      rw [World.attempt_setLock hplain.offPasses] at hattempt
      obtain ⟨hanswer, rfl⟩ := Prod.mk.inj hattempt
      exact (Stage.inside hturn (hasks.2 a) (hreaches.call (.answered (Prod.ext hanswer rfl))) :)
  | @woken past queue x results u v' moment next' hturn hasks hreaches hlt =>
    obtain ⟨rfl, hjob, rfl⟩ := eq_of_goesOn (hturn.distinct hdistinct) (by rfl) hbegun hattempt
    obtain rfl : ticket = x.1 := congrArg Job.id hjob
    obtain ⟨rfl, hnext⟩ := Program.call.inj (congrArg Job.program hjob)
    obtain rfl := eq_of_heq hnext
    obtain ⟨-, rfl⟩ := Prod.mk.inj hattempt
    rw [← List.append_nil queue] at hturn
    exact (Stage.inside hturn hasks (hreaches.call (.waited hlt)) :)

/-- No pass that is over waits for a moment. -/
theorem limitOf?_ended : ∀ limit ∈ (ended past results).map fun job => limitOf? job.program,
    limit = none := by
  intro limit hlimit
  obtain ⟨⟨id, program⟩, hjob, rfl⟩ := List.mem_map.mp hlimit
  cases program with
  | done r => rfl
  | call c next => cases isSome_result?_of_mem_ended hjob

/-- Nor does one that waits for the lock. -/
theorem limitOf?_queue : ∀ limit ∈ (queue.map m.job).map fun job => limitOf? job.program,
    limit = none := by
  intro limit hlimit
  obtain ⟨job, hjob, rfl⟩ := List.mem_map.mp hlimit
  obtain ⟨y, -, rfl⟩ := List.mem_map.mp hjob
  rw [program_job]
  rfl

theorem foldl_earlier {limits : List (Option Moment)} (h : ∀ limit ∈ limits, limit = none)
    (limit : Option Moment) : limits.foldl earlier limit = limit := by
  induction limits generalizing limit with
  | nil => rfl
  | cons first limits ih =>
    obtain rfl := h first (List.mem_cons_self ..)
    rw [List.foldl_cons, ih fun x hx => h x (List.mem_cons_of_mem _ hx)]
    cases limit <;> rfl

/-- So the clock moves as it does for the pass that is at its turn. -/
theorem nextMoment?_eq (past : List PlannedPass) (results : List PassResult) (m : Manager)
    (queue : List PlannedPass) (job : Job PassResult) :
    nextMoment? (ended past results ++ job :: queue.map m.job) {} = limitOf? job.program := by
  change ((_ ++ _ :: _).map _ ++ []).foldl earlier none = _
  rw [List.append_nil, List.map_append, List.foldl_append, foldl_earlier limitOf?_ended,
    List.map_cons, List.foldl_cons, foldl_earlier limitOf?_queue]
  cases limitOf? job.program <;> rfl

/-- The clock moves for the pass that is at its turn, which can go on then. -/
theorem Stage.ticks {moment : Moment} (h : Stage m passes w l) (hcoming : l.coming = [])
    (hwait : ¬ l.CanGoOn) (hmoment : nextMoment? l.begun {} = some moment) :
    Stage m passes w ⟨[], l.begun, { l.world with clock := moment }⟩ ∧
      Lineup.CanGoOn ⟨[], l.begun, { l.world with clock := moment }⟩ := by
  cases h with
  | @settled past coming results u =>
    -- nobody waits for a moment
    change ((ended past results).map _ ++ []).foldl earlier none = _ at hmoment
    rw [List.append_nil, foldl_earlier limitOf?_ended] at hmoment
    cases hmoment
  | @given past queue coming x results u hturn =>
    -- the pass can take the lock
    rw [job_eq] at hwait
    refine absurd ⟨x.1, _, _, List.mem_append_right _ (List.mem_cons_self ..), ?_⟩ hwait
    rw [attempt_given]
    exact nofun
  | @inside past queue coming x results u v rest hturn hasks hreaches =>
    have hmem : ∀ job : Job PassResult, job ∈ ended past results ++ job :: queue.map m.job :=
      fun job => List.mem_append_right _ (List.mem_cons_self ..)
    cases rest with
    | done r => exact absurd ⟨x.1, .release .passes, _, hmem _, nofun⟩ hwait
    | call c next =>
      have hnone : ((v.setLock (queueOf x queue) .passes).attempt x.1 c).1 = none :=
        Decidable.not_not.mp fun hsome => hwait ⟨x.1, _, _, hmem _, hsome⟩
      obtain ⟨moment', rfl, hlt⟩ := World.eq_waitUntil_of_attempt hasks.1 hnone
      obtain rfl : moment' = moment :=
        Option.some.inj ((nextMoment?_eq past results m queue _).symm.trans hmoment)
      rw [List.map_eq_nil_iff.mp hcoming, List.append_nil] at hturn
      refine ⟨Stage.woken hturn (hasks.2 ()) hreaches hlt, x.1, _, _, hmem _, ?_⟩
      rw [attempt_waitUntil_of_le (Nat.le_refl moment')]
      exact nofun
  | @woken past queue x results u v moment' next hturn hasks hreaches hlt =>
    -- the pass can go on
    refine absurd ⟨x.1, _, _, List.mem_append_right _ (List.mem_cons_self ..), ?_⟩ hwait
    rw [attempt_waitUntil_of_le (Nat.le_refl moment')]
    exact nofun

/-- **Whatever moves are made,** it is as if the passes were made one after the other. -/
theorem Stage.move (hdistinct : (passes.map Prod.fst).Nodup) (h : Stage m passes w l)
    (hmove : l.Move l') : Stage m passes w l' := by
  cases hmove with
  | begins hcoming => exact h.begins hdistinct hcoming
  | goesOn hbegun hattempt => exact h.goesOn hdistinct hbegun hattempt
  | ticks hcoming hwait hmoment => exact (h.ticks hcoming hwait hmoment).1

theorem Stage.moves (hdistinct : (passes.map Prod.fst).Nodup) (h : Stage m passes w l)
    (hmoves : ReflTransGen Lineup.Move l l') : Stage m passes w l' := by
  induction hmoves with
  | refl => exact h
  | tail _ hmove ih => exact ih.move hdistinct hmove

theorem stage_lineup (hfree : w.passLock = []) : Stage m passes w (m.lineup passes w) :=
  (Stage.settled (List.nil_append passes).symm .nil hfree :)

/-! ### The end -/

theorem result?_ended (hlength : past.length = results.length) :
    (ended past results).map Job.result? = results.map some := by
  induction past generalizing results with
  | nil => rw [List.length_eq_zero_iff.mp hlength.symm]; rfl
  | cons x past ih =>
    cases results with
    | nil => cases hlength
    | cons r results => exact congrArg (some r :: ·) (ih (Nat.succ.inj hlength))

/-- When all passes are over, they are over as if they had been made alone. -/
theorem Stage.inOrder_of_ended (h : Stage m passes w l) (hcoming : l.coming = [])
    (hended : l.begun.map Job.result? = results.map some) :
    InOrder m.Solo passes w results l.world := by
  have hresult : ∀ job ∈ l.begun, job.result? ≠ none := by
    intro job hjob hnone
    have hmem := List.mem_map_of_mem (f := Job.result?) hjob
    rw [hended, hnone] at hmem
    obtain ⟨r, -, hr⟩ := List.mem_map.mp hmem
    cases hr
  cases h with
  | @settled past coming results' u hplanned hpast hfree =>
    rw [List.map_eq_nil_iff.mp hcoming, List.append_nil] at hplanned
    rw [result?_ended hpast.length_eq] at hended
    obtain rfl := List.map_injective_iff.mpr (fun _ _ => Option.some.inj) hended
    exact hplanned ▸ hpast
  | @given past queue coming x results' u hturn =>
    refine absurd ?_ (hresult (m.job x) (List.mem_append_right _ (List.mem_cons_self ..)))
    rw [Job.result?, program_job]
  | @inside past queue coming x results' u v rest hturn hasks hreaches =>
    refine absurd ?_ (hresult _ (List.mem_append_right _ (List.mem_cons_self ..)))
    cases rest <;> rfl
  | woken => exact absurd rfl (hresult _ (List.mem_append_right _ (List.mem_cons_self ..)))

/-- A pass for which the clock has moved goes on. -/
theorem move_woken {moment : Moment} {next : Unit → WorldProgram PassResult} (v : World) :
    Lineup.Move
      ⟨[], ended past results ++
        ⟨x.1, .call (.waitUntil moment) fun a => (next a).bind giveBack⟩ :: queue.map m.job,
        { v.setLock (queueOf x queue) .passes with clock := moment }⟩
      ⟨[], ended past results ++ ⟨x.1, (next ()).bind giveBack⟩ :: queue.map m.job,
        { v.setLock (queueOf x queue) .passes with clock := moment }⟩ :=
  .answered (attempt_waitUntil_of_le (Nat.le_refl moment))

/-- A pass that has the lock comes to its end, while the others wait. -/
theorem exists_pass_ends (past : List PlannedPass) (results : List PassResult)
    (hx : (x.1 :: queue.map Prod.fst).Nodup) {rest : WorldProgram PassResult}
    (hasks : rest.Asks WorldCall.Plain fun _ => True) (v : World) :
    ∃ r v', Reaches (alone x.1) rest v (.done r) v' ∧
      ReflTransGen Lineup.Move
        ⟨[], ended past results ++ ⟨x.1, rest.bind giveBack⟩ :: queue.map m.job,
          v.setLock (queueOf x queue) .passes⟩
        ⟨[], ended past results ++ ⟨x.1, giveBack r⟩ :: queue.map m.job,
          v'.setLock (queueOf x queue) .passes⟩ := by
  induction rest generalizing v with
  | done r => exact ⟨r, v, .start, .refl⟩
  | call c next ih =>
    rcases hattempt : v.attempt x.1 c with ⟨_ | a, u⟩
    · -- the clock moves, and then the call is answered
      obtain ⟨moment, rfl, hlt⟩ :=
        World.eq_waitUntil_of_attempt hasks.1 (congrArg Prod.fst hattempt)
      obtain ⟨r, v', hreaches, hmoves⟩ := ih () (hasks.2 ()) { v with clock := moment }
      have hwait : ¬ Lineup.CanGoOn ⟨[], ended past results ++
          ⟨x.1, (Program.call (I := worldCalls) (.waitUntil moment) next).bind giveBack⟩ ::
            queue.map m.job, v.setLock (queueOf x queue) .passes⟩ := by
        rintro ⟨ticket, c, next', hmem, hsome⟩
        rcases eq_or_mem_queue hmem with hjob | hmem
        · obtain ⟨rfl, -⟩ := Program.call.inj (congrArg Job.program hjob)
          exact hsome (if_neg (Nat.not_le_of_lt hlt))
        · exact hsome (attempt_of_mem_queue rfl hx hmem)
      have hticks := Lineup.Move.ticks rfl hwait (nextMoment?_eq past results m queue _)
      exact ⟨r, v', .of_call (.waited hlt) hreaches, .head hticks (.head (move_woken v) hmoves)⟩
    · obtain ⟨r, v', hreaches, hmoves⟩ := ih a (hasks.2 a) u
      refine ⟨r, v', .of_call (.answered hattempt) hreaches, .head (.answered ?_) hmoves⟩
      have hplain : c.Plain := hasks.1
      rw [World.attempt_setLock hplain.offPasses, hattempt]

/-- Then it gives the lock to the next one. -/
theorem Turn.exists_settled (h : Turn m passes w past x queue results u)
    (hdistinct : (passes.map Prod.fst).Nodup) {rest : WorldProgram PassResult}
    (hasks : rest.Asks WorldCall.Plain fun _ => True)
    (hreaches : Reaches (alone x.1) (m.body x.2) (u.setLock [x.1] .passes) rest v) :
    ∃ (r : PassResult) (v' : World), m.Solo x u r (v'.setLock [] .passes) ∧
      ReflTransGen Lineup.Move
        ⟨[], ended past results ++ ⟨x.1, rest.bind giveBack⟩ :: queue.map m.job,
          v.setLock (queueOf x queue) .passes⟩
        ⟨[], ended (past ++ [x]) (results ++ [r]) ++ queue.map m.job,
          v'.setLock (queue.map Prod.fst) .passes⟩ := by
  obtain ⟨r, v', hrest, hmoves⟩ := exists_pass_ends past results (h.distinct hdistinct) hasks v
  refine ⟨r, v', ⟨v', hreaches.trans hrest, rfl⟩, hmoves.tail ?_⟩
  rw [ended_snoc h.past.length_eq, List.append_assoc]
  exact .answered (c := .release .passes) rfl

/-- All passes in the queue come to their ends, one after the other. -/
theorem exists_queue_ends (hdistinct : (passes.map Prod.fst).Nodup)
    (hplanned : passes = past ++ queue) (hpast : InOrder m.Solo past w results u)
    (hfree : u.passLock = []) :
    ∃ results' v, ReflTransGen Lineup.Move
      ⟨[], ended past results ++ queue.map m.job, u.setLock (queue.map Prod.fst) .passes⟩
      ⟨[], ended passes results', v⟩ ∧ InOrder m.Solo passes w results' v := by
  induction queue generalizing past results u with
  | nil =>
    rw [List.append_nil] at hplanned
    subst hplanned
    refine ⟨results, u, ?_, hpast⟩
    rw [List.map_nil, List.map_nil, List.append_nil, ← hfree, World.setLock_passLock]
  | cons x queue ih =>
    have hturn : Turn m passes w past x queue results u := ⟨hplanned, hpast, hfree⟩
    obtain ⟨r, v, hsolo, hmoves⟩ := hturn.exists_settled hdistinct (asks_body m x.2) .start
    rw [List.append_cons] at hplanned
    obtain ⟨results', v', hrest, hall⟩ := ih hplanned (hpast.snoc hsolo) rfl
    refine ⟨results', v', .head ?_ (hmoves.trans hrest), hall⟩
    rw [List.map_cons, job_eq]
    exact .answered (attempt_given u x queue)

/-- When all passes have begun, they come to their ends. -/
theorem Stage.exists_ends (hdistinct : (passes.map Prod.fst).Nodup) (h : Stage m passes w l)
    (hcoming : l.coming = []) :
    ∃ results v, ReflTransGen Lineup.Move l ⟨[], ended passes results, v⟩ ∧
      InOrder m.Solo passes w results v := by
  have hinside : ∀ {past queue x results u rest v}, Turn m passes w past x queue results u →
      rest.Asks WorldCall.Plain (fun _ => True) →
      Reaches (alone x.1) (m.body x.2) (u.setLock [x.1] .passes) rest v →
      ∃ results' v', ReflTransGen Lineup.Move
        ⟨[], ended past results ++ ⟨x.1, rest.bind giveBack⟩ :: queue.map m.job,
          v.setLock (queueOf x queue) .passes⟩
        ⟨[], ended passes results', v'⟩ ∧ InOrder m.Solo passes w results' v' := by
    intro past queue x results u rest v hturn hasks hreaches
    obtain ⟨r, v', hsolo, hmoves⟩ := hturn.exists_settled hdistinct hasks hreaches
    have hplanned := hturn.planned
    rw [List.append_cons] at hplanned
    obtain ⟨results', u', hrest, hall⟩ :=
      exists_queue_ends hdistinct hplanned (hturn.past.snoc hsolo) rfl
    exact ⟨results', u', hmoves.trans hrest, hall⟩
  cases h with
  | @settled past coming results u hplanned hpast hfree =>
    obtain rfl := List.map_eq_nil_iff.mp hcoming
    rw [List.append_nil] at hplanned
    exact ⟨results, u, hplanned ▸ .refl, hplanned ▸ hpast⟩
  | given hturn =>
    obtain rfl := List.map_eq_nil_iff.mp hcoming
    rw [List.append_nil] at hturn
    exact exists_queue_ends hdistinct hturn.planned hturn.past hturn.free
  | inside hturn hasks hreaches =>
    obtain rfl := List.map_eq_nil_iff.mp hcoming
    rw [List.append_nil] at hturn
    exact hinside hturn hasks hreaches
  | @woken past queue x results u v moment next hturn hasks hreaches hlt =>
    obtain ⟨results', v', hmoves, hall⟩ := hinside hturn hasks (hreaches.call (.waited hlt))
    exact ⟨results', v', .head (move_woken v) hmoves, hall⟩

/-- All passes begin at some time. -/
theorem exists_begun (l : Lineup) :
    ∃ l', ReflTransGen Lineup.Move l l' ∧ l'.coming = [] := by
  obtain ⟨coming, begun, w⟩ := l
  induction coming generalizing begun w with
  | nil => exact ⟨_, .refl, rfl⟩
  | cons job coming ih =>
    obtain ⟨l', hmoves, hcoming⟩ := ih (begun ++ [(w.tried job).1]) (w.tried job).2
    exact ⟨l', .head (.begins rfl) hmoves, hcoming⟩

/-! ### No endless runs -/

/-- What may be left of a program after a call. -/
inductive Later : WorldProgram PassResult → WorldProgram PassResult → Prop
  | next {c : WorldCall} {next : c.Answer → WorldProgram PassResult} (a : c.Answer) :
      Later (next a) (.call c next)

theorem later_wellFounded : WellFounded Later := by
  refine ⟨fun p => ?_⟩
  induction p with
  | done r => exact ⟨_, nofun⟩
  | call c next ih =>
    refine ⟨_, fun q hq => ?_⟩
    cases hq
    exact ih _

open Classical in
/-- What is left to do: passes that have not begun, programs, and whether the clock has to move. -/
noncomputable def Lineup.left (l : Lineup) : ℕ × Multiset (WorldProgram PassResult) × ℕ :=
  (l.coming.length, ↑(l.begun.map Job.program), if l.CanGoOn then 0 else 1)

/-- There is less to do: fewer passes to begin, or as many and less of their programs, or as much
and less time to pass. -/
abbrev Less : ℕ × Multiset (WorldProgram PassResult) × ℕ →
    ℕ × Multiset (WorldProgram PassResult) × ℕ → Prop :=
  Prod.Lex (· < ·) (Prod.Lex (CutExpand Later) (· < ·))

/-- A program that goes on, among others. -/
theorem cutExpand_later {before after : List (Job PassResult)} (a : c.Answer) :
    CutExpand Later
      ↑((before ++ ⟨ticket, next a⟩ :: after).map Job.program)
      ↑((before ++ ⟨ticket, .call c next⟩ :: after).map Job.program) := by
  have hmiddle : ∀ p, ((before.map Job.program ++ p :: after.map Job.program :
      List (WorldProgram PassResult)) : Multiset (WorldProgram PassResult)) =
        {p} + ↑(before.map Job.program ++ after.map Job.program) := by
    intro p
    rw [Multiset.singleton_add, Multiset.cons_coe]
    exact Multiset.coe_eq_coe.mpr List.perm_middle
  rw [List.map_append, List.map_append, List.map_cons, List.map_cons, hmiddle, hmiddle]
  exact cutExpand_single_add (.next a) _

theorem Stage.less (h : Stage m passes w l) (hmove : l.Move l') : Less l'.left l.left := by
  cases hmove with
  | begins hcoming =>
    refine .left _ _ ?_
    rw [hcoming]
    exact Nat.lt_succ_self _
  | goesOn hbegun hattempt =>
    refine .right _ (.left _ _ ?_)
    rw [hbegun]
    exact cutExpand_later _
  | ticks hcoming hwait hmoment =>
    have hcan := (h.ticks hcoming hwait hmoment).2
    rw [Lineup.left, Lineup.left, hcoming, if_pos hcan, if_neg hwait]
    exact .right _ (.right _ Nat.zero_lt_one)

/-- **Every line-up comes to its end.** No fuel is needed for it: each move takes something away
from what there is to do. -/
theorem Stage.acc (hdistinct : (passes.map Prod.fst).Nodup) (h : Stage m passes w l) :
    Acc (fun l' l : Lineup => l.Move l') l := by
  have hless : WellFounded Less :=
    (Nat.lt_wfRel.wf).prod_lex (later_wellFounded.cutExpand.prod_lex Nat.lt_wfRel.wf)
  induction hleft : l.left using hless.induction generalizing l with
  | _ left ih =>
    subst hleft
    exact ⟨_, fun l' hmove => ih _ (h.less hmove) (h.move hdistinct hmove) rfl⟩

/-! ### One after the other -/

theorem Manager.Solo.unique {r r' : PassResult} (h : m.Solo x w r u) (h' : m.Solo x w r' v) :
    r = r' ∧ u = v := by
  obtain ⟨u', hreaches, rfl⟩ := h
  obtain ⟨v', hreaches', rfl⟩ := h'
  obtain ⟨rfl, rfl⟩ := hreaches.unique (fun hstep hstep' => hstep.unique hstep') hreaches'
  exact ⟨rfl, rfl⟩

theorem Manager.Solo.free {r : PassResult} (h : m.Solo x w r v) : v.passLock = [] := by
  obtain ⟨u, -, rfl⟩ := h
  rfl

theorem inOrder_unique {results' : List PassResult} (h : InOrder m.Solo passes w results u)
    (h' : InOrder m.Solo passes w results' v) : results' = results ∧ v = u := by
  induction h generalizing results' with
  | nil =>
    cases h'
    exact ⟨rfl, rfl⟩
  | cons hfirst _ ih =>
    cases h' with
    | cons hfirst' hrest' =>
      obtain ⟨rfl, rfl⟩ := hfirst.unique hfirst'
      obtain ⟨rfl, rfl⟩ := ih hrest'
      exact ⟨rfl, rfl⟩

/-- **What a line-up can come to** at any time is what the passes come to alone. -/
theorem comesTo_iff (hdistinct : (passes.map Prod.fst).Nodup) (hfree : w.passLock = [])
    (hmoves : ReflTransGen Lineup.Move (m.lineup passes w) l) :
    l.ComesTo results v ↔ InOrder m.Solo passes w results v := by
  have hstage : Stage m passes w (m.lineup passes w) := stage_lineup hfree
  constructor
  · rintro ⟨jobs, hrest, hresults⟩
    exact (hstage.moves hdistinct (hmoves.trans hrest)).inOrder_of_ended rfl hresults
  · intro hall
    obtain ⟨l', hbegin, hcoming⟩ := exists_begun l
    obtain ⟨results', v', hrest, hall'⟩ :=
      (hstage.moves hdistinct (hmoves.trans hbegin)).exists_ends hdistinct hcoming
    obtain ⟨rfl, rfl⟩ := inOrder_unique hall hall'
    exact ⟨_, hbegin.trans hrest, result?_ended hall.length_eq⟩

theorem exists_inOrder (hdistinct : (passes.map Prod.fst).Nodup) (hfree : w.passLock = []) :
    ∃ results v, InOrder m.Solo passes w results v := by
  obtain ⟨l, hbegin, hcoming⟩ := exists_begun (m.lineup passes w)
  obtain ⟨results, v, -, hall⟩ :=
    ((stage_lineup hfree).moves hdistinct hbegin).exists_ends hdistinct hcoming
  exact ⟨results, v, hall⟩

/-- A line-up of one pass is the pass alone. -/
theorem oneByOne_iff (hfree : w.passLock = []) :
    m.OneByOne passes w results v ↔ InOrder m.Solo passes w results v := by
  have hone : ∀ {x w r v}, w.passLock = [] →
      ((m.lineup [x] w).ComesTo [r] v ↔ m.Solo x w r v) := by
    intro x w r v hfree
    have hsingle : ([x].map Prod.fst).Nodup := List.nodup_singleton _
    rw [comesTo_iff hsingle hfree .refl]
    constructor
    · intro h
      cases h with
      | cons hfirst hrest =>
        cases hrest
        exact hfirst
    · exact fun h => .cons h .nil
  constructor
  · intro h
    induction h with
    | nil => exact .nil
    | cons hfirst _ ih =>
      have hsolo := (hone hfree).mp hfirst
      exact .cons hsolo (ih hsolo.free)
  · intro h
    induction h with
    | nil => exact .nil
    | cons hfirst _ ih => exact .cons ((hone hfree).mpr hfirst) (ih hfirst.free)

end

/-- Where moves come to an end, there is no run without an end. -/
theorem not_endless {l : Lineup} (h : Acc (fun l' l : Lineup => l.Move l') l) (run : ℕ → Lineup)
    (hstart : run 0 = l) : ¬ ∀ n, (run n).Move (run (n + 1)) := by
  induction h generalizing run with
  | intro l _ ih =>
    intro hmoves
    exact ih (run 1) (hstart ▸ hmoves 0) (fun n => run (n + 1)) rfl fun n => hmoves (n + 1)

/-- **Passes are made one after the other.** However many there are, whoever starts them, and
whatever else happens and fails, no call of a pass stands between two calls of another one. Passes
that are started together in some order, with nothing else going on, come to their end, and they
come to the results, the world and the time to which they come one after the other in this order. -/
theorem passes_serial (m : Manager) :
    (∀ f : Floor, f.Reachable m → Serial f.log) ∧
    ∀ (passes : List PlannedPass) (w : World), (passes.map Prod.fst).Nodup → w.passLock = [] →
      ∃ results v,
        (∀ results' v', m.OneByOne passes w results' v' ↔ results' = results ∧ v' = v) ∧
        (∀ l, ReflTransGen Lineup.Move (m.lineup passes w) l →
          ∀ results' v', l.ComesTo results' v' ↔ results' = results ∧ v' = v) ∧
        ∀ run : ℕ → Lineup, run 0 = m.lineup passes w → ¬ ∀ n, (run n).Move (run (n + 1)) := by
  refine ⟨fun f hf => hf.serial, fun passes w hdistinct hfree => ?_⟩
  obtain ⟨results, v, hall⟩ := exists_inOrder (m := m) hdistinct hfree
  have hiff : ∀ results' v', InOrder m.Solo passes w results' v' ↔ results' = results ∧ v' = v :=
    fun results' v' => ⟨inOrder_unique hall, fun heq => by rwa [heq.1, heq.2]⟩
  refine ⟨results, v, fun results' v' => (oneByOne_iff hfree).trans (hiff results' v'),
    fun l hmoves results' v' => (comesTo_iff hdistinct hfree hmoves).trans (hiff results' v'), ?_⟩
  exact not_endless ((stage_lineup hfree).acc hdistinct)

/-- A controller that wants two tasks. -/
def webs : Controller where
  id := "webs"
  desiredState := { replicas := 2, replicaSelector := .ofList [("app", "web")] }

/-- A manager that only writes down what it would change. -/
def rehearsing : Manager where
  settings := { machines := ["h1"] }
  recordOnly := true

/-- It waits for a second between its two creations. -/
theorem solo_webs (ticket : TicketId) (clock : Moment) (notes : List Note) :
    rehearsing.Solo (ticket, webs) { clock := clock, notes := notes } (.ok { created := 2 })
      { clock := clock + 1000000000,
        notes := notes ++ [.create "webs"] ++ [.create "webs"] } := by
  refine ⟨{ clock := clock + 1000000000, passLock := [ticket],
            notes := notes ++ [.create "webs"] ++ [.create "webs"] }, ?_, rfl⟩
  -- the list, the first creation, the moment, the pause until then, the second creation
  refine .of_call (.answered rfl) ?_
  refine .of_call (.answered rfl) ?_
  refine .of_call (.answered rfl) ?_
  refine .of_call (.waited (Nat.lt_add_of_pos_right (by decide))) ?_
  refine .of_call (.answered rfl) ?_
  exact .start

/-- Two passes for this controller have been started, and the first one waits in its pause. -/
def websPausing : Floor :=
  [0, 1, 0, 1, 0, 1, 0, 1, 0].foldl Floor.turn
    ⟨{}, Function.update (Function.update (fun _ => none) 0 ((Errand.pass webs).work rehearsing)) 1
      ((Errand.pass webs).work rehearsing), []⟩

/-- They go on after the pause, again in turns. -/
def websWoken : Floor :=
  [1, 0, 1, 0, 1, 0, 1, 1].foldl Floor.turn
    { websPausing with world := { websPausing.world with clock := 1000000000 } }

theorem reachable_websWoken : websWoken.Reachable rehearsing := by
  have hbegun : websPausing.Reachable rehearsing :=
    .turns (.begins (.pass webs) (.begins (.pass webs) (.empty rfl) rfl) rfl) _
  have hlater : Floor.Reachable rehearsing
      { websPausing with world := { websPausing.world with clock := 1000000000 } } :=
    .elsewhere hbegun rfl
  exact hlater.turns _

/-- The second pass makes no call before the end of the first one, and two passes for this
controller take two seconds, in whatever turns they go on. -/
theorem passes_serial_webs :
    websWoken.Reachable rehearsing ∧
      websWoken.log.map (fun x => (x.1, x.2.1)) =
        [(0, .acquire), (0, .replica (.list (.ofList [("app", "web")]))),
          (0, .replica (.create webs)), (0, .replica .pause), (0, .replica .pause),
          (0, .replica (.create webs)), (0, .release),
          (1, .acquire), (1, .replica (.list (.ofList [("app", "web")])))] ∧
      Serial websWoken.log ∧
      ([(0, webs), (1, webs)].map Prod.fst).Nodup ∧ World.passLock {} = [] ∧
      ∀ l, ReflTransGen Lineup.Move (rehearsing.lineup [(0, webs), (1, webs)] {}) l →
        ∀ results v, l.ComesTo results v ↔
          results = [.ok { created := 2 }, .ok { created := 2 }] ∧
            v = { clock := 2000000000,
                  notes := [.create "webs", .create "webs", .create "webs", .create "webs"] } := by
  have hdistinct : ([(0, webs), (1, webs)].map Prod.fst).Nodup := by decide
  obtain ⟨hserial, htogether⟩ := passes_serial rehearsing
  obtain ⟨results, v, hone, hcomes, -⟩ := htogether [(0, webs), (1, webs)] {} hdistinct rfl
  have hboth : rehearsing.OneByOne [(0, webs), (1, webs)] {}
      [.ok { created := 2 }, .ok { created := 2 }] _ :=
    (oneByOne_iff rfl).mpr (.cons (solo_webs 0 0 []) (.cons (solo_webs 1 _ _) .nil))
  obtain ⟨rfl, rfl⟩ := (hone _ _).mp hboth
  exact ⟨reachable_websWoken, by decide +kernel, hserial _ reachable_websWoken, hdistinct, rfl,
    hcomes⟩

end ControlPlane.Rehearsal
