import ControlPlane.Proofs.Rehearsal.PassLock
import ControlPlane.Rehearsal.Schedule
import Mathlib.Data.List.Induction
import Mathlib.Logic.Function.Basic

/-!
# Passes exclude each other

Passes are started by a scan, by the changes of controllers, and directly, and nobody knows how many
there are at a time. `Floor` is the place where all of them are under way, in one world. Its moves
are single calls, in any turns; a call that has to wait is tried again. Everything else in the
world, the clock included, may change at any time, except for the lock on passes: it belongs to the
passes alone.

What the passes do is written down, call by call, and to tell the calls of a pass from those of the
driver that started it, a program is carried out with marks: each call of the world bears the call
of the manager that it is made for. The marks change nothing (`Errand.unmark_work`).

Whether a program has the lock can be read off its own calls. It is the first in the queue of the
lock then, so no other one has it; and a program that does not have it makes no call of a pass.

## Main definitions

* `Interface.marked`, `Program.mark`: calls with what they are made for
* `Rehearsal.Errand`: what is done by a manager: passes, and the rounds of its drivers
* `Rehearsal.Floor`, `Rehearsal.Floor.Reachable`: any number of them at once
* `Rehearsal.Serial`: no call of a pass stands between two calls of another one

## Main results

* `Rehearsal.Errand.round_process`: errands are what the processes of a rehearsal do
* `Rehearsal.Errand.heeds_work`: passes are made under the lock
* `Rehearsal.Floor.Reachable.serial`: passes exclude each other
-/

namespace ControlPlane

/-! ### Marks -/

/-- The same partner, which is told what each call is made for. -/
def Interface.marked (I : Interface) (μ : Type) : Interface where
  Call := μ × I.Call
  Answer c := I.Answer c.2

namespace Program

variable {I J : Interface} {α β μ : Type}

/-- The same program, with all calls made for one purpose. -/
def mark (purpose : μ) : Program I α → Program (I.marked μ) α
  | done a => done a
  | call c next => call (I := I.marked μ) (purpose, c) fun a => (next a).mark purpose

/-- The program without its marks. Marks are for what is said about a program and change nothing
that it does. -/
def unmark : Program (I.marked μ) α → Program I α
  | done a => done a
  | call c next => call c.2 fun a => (next a).unmark

theorem unmark_mark_bind (purpose : μ) (p : Program I α) (f : α → Program (I.marked μ) β) :
    ((p.mark purpose).bind f).unmark = p.bind fun a => (f a).unmark := by
  induction p with
  | done a => rfl
  | call c next ih => exact congrArg (call c) (funext ih)

/-- Marks do not change how calls are carried out. -/
theorem unmark_expand (f : (c : J.Call) → Program I (J.Answer c)) (p : Program J α) :
    (p.expand fun c => (f c).mark c).unmark = p.expand f := by
  induction p with
  | done a => rfl
  | call c next ih => exact (unmark_mark_bind c (f c) _).trans (congrArg (f c).bind (funext ih))

theorem asks_mark {may : μ × I.Call → Prop} {purpose : μ} {p : Program I α} {post : α → Prop}
    (h : p.Asks (fun c => may (purpose, c)) post) : (p.mark purpose).Asks may post := by
  induction p with
  | done a => exact h
  | call c next ih => exact ⟨h.1, fun a => ih a (h.2 a)⟩

end Program

namespace Rehearsal

open Program

/-! ### Errands -/

/-- The calls of the world that a manager makes, with the calls of its own that they are made
for. -/
abbrev managedCalls : Interface := worldCalls.marked ManagerCall

/-- What is done by a manager: a pass for a controller, a scan, or a stage of following changes. -/
inductive Errand where
  | pass (c : Controller)
  | scan
  | following (stage : Replication.Following)

/-- One round of an errand, and what it goes on as. -/
def Errand.round (s : ManagerSettings) : Errand → Program managerCalls (Option Errand)
  | pass c => do
    let _ ← Replication.reconcile c
    return none
  | scan => do
    Replication.scanRound s
    return some scan
  | following stage => do
    let next ← stage.round s
    return some (following next)

/-- The round in the world, each of whose calls is marked with the call of the manager that it
carries out. -/
def Errand.work (m : Manager) (e : Errand) : Program managedCalls (Option Errand) :=
  (e.round m.settings).expand fun c => (m.ofManager c).mark c

/-- The process that a driver is. A pass by itself is none, since it ends. -/
def Errand.process? (m : Manager) : Errand → Option Process
  | pass _ => none
  | scan => some (.scan m)
  | following stage => some (.following m stage)

theorem Errand.unmark_work (m : Manager) (e : Errand) :
    (e.work m).unmark = (e.round m.settings).expand m.ofManager :=
  unmark_expand (J := managerCalls) m.ofManager _

/-- The errands of the drivers are the processes of a rehearsal. -/
theorem Errand.round_process {m : Manager} {e : Errand} {p : Process} (h : e.process? m = some p) :
    p.round = (e.work m).unmark.bind fun next => done (next.bind (Errand.process? m)) := by
  have hround : ∀ {α : Type} (q : Program managerCalls α) (f : α → Errand),
      (q.expand m.ofManager).bind (fun a => done ((f a).process? m)) =
        ((q.bind fun a => done (some (f a))).expand m.ofManager).bind
          fun next => done (next.bind (Errand.process? m)) := by
    intro α q f
    have hexpand := expand_bind (I := managerCalls) m.ofManager q fun a => done (some (f a))
    have hassoc := Program.bind_assoc (q.expand m.ofManager) (fun a => done (some (f a)))
      fun next => done (next.bind (Errand.process? m))
    exact hassoc.symm.trans (congrArg (Program.bind · _) hexpand.symm)
  rw [e.unmark_work m]
  cases e with
  | pass c => cases h
  | scan =>
    obtain rfl := Option.some.inj h
    exact hround (Replication.scanRound m.settings) fun _ => scan
  | following stage =>
    obtain rfl := Option.some.inj h
    exact hround (stage.round m.settings) following

/-! ### The rule of the lock -/

/-- Whether a program that has the lock, or does not have it, may make a call of the manager, and
whether it has the lock then. -/
def rule : ManagerCall → Bool → Option Bool
  | .acquire, false => some true
  | .release, true => some false
  | .replica _, true => some true
  | .store _, b | .wait _, b | .receive _, b => some b
  | _, _ => none

/-- The program keeps the rule if it starts with the lock, or without it, and ends with it, or
without it. -/
def Heeds {I : Interface} {α : Type} (purpose : I.Call → ManagerCall) :
    Program I α → (before after : Bool) → Prop
  | .done _, before, after => before = after
  | .call c next, before, after =>
    ∃ b, rule (purpose c) before = some b ∧ ∀ a, Heeds purpose (next a) b after

section

variable {I : Interface} {α β : Type} {purpose : I.Call → ManagerCall} {before mid after : Bool}

theorem Heeds.bind {p : Program I α} {f : α → Program I β} (hp : Heeds purpose p before mid)
    (hf : ∀ a, Heeds purpose (f a) mid after) : Heeds purpose (p.bind f) before after := by
  induction p generalizing before with
  | done a =>
    obtain rfl : before = mid := hp
    exact hf a
  | call c next ih =>
    obtain ⟨b, hrule, hnext⟩ := hp
    exact ⟨b, hrule, fun a => ih a (hnext a)⟩

theorem heeds_of_asks {p : Program I α}
    (h : p.Asks (fun c => rule (purpose c) before = some before) fun _ => True) :
    Heeds purpose p before before := by
  induction p with
  | done a => rfl
  | call c next ih => exact ⟨before, h.1, fun a => ih a (h.2 a)⟩

/-- Calls that are made for one that does not move the lock do not move it either. -/
theorem heeds_mark {c : ManagerCall} (hc : rule c before = some before)
    (p : Program worldCalls α) : Heeds Prod.fst (p.mark c) before before := by
  induction p with
  | done a => rfl
  | call wc next ih => exact ⟨before, hc, ih⟩

theorem eq_of_rule {c : ManagerCall} {b : Bool} (hacquire : c ≠ .acquire) (hrelease : c ≠ .release)
    (h : rule c before = some b) : b = before := by
  cases c with
  | acquire => exact absurd rfl hacquire
  | release => exact absurd rfl hrelease
  | replica c =>
    cases before with
    | false => cases h
    | true => exact (Option.some.inj h).symm
  | store c => exact (Option.some.inj h).symm
  | wait d => exact (Option.some.inj h).symm
  | receive w => exact (Option.some.inj h).symm

/-- What keeps the rule keeps it when it is carried out in the world. -/
theorem Heeds.carried_out (m : Manager) {p : Program managerCalls α}
    (h : Heeds id p before after) :
    Heeds Prod.fst (p.expand fun c => (m.ofManager c).mark c) before after := by
  induction p generalizing before with
  | done a => exact h
  | call c next ih =>
    obtain ⟨b, hrule, hnext⟩ := h
    have hrest := fun a => ih a (hnext a)
    by_cases hacquire : c = .acquire
    · subst hacquire
      exact ⟨b, hrule, hrest⟩
    by_cases hrelease : c = .release
    · subst hrelease
      exact ⟨b, hrule, hrest⟩
    obtain rfl := eq_of_rule hacquire hrelease hrule
    exact (heeds_mark hrule (m.ofManager c)).bind hrest

end

/-! ### Passes are made under the lock -/

section

open Replication

/-- Work on the store does not move the lock. -/
theorem heeds_onStore {α : Type} (p : Program storeCalls α) (before : Bool) :
    Heeds id (p.expand fun call => ask (I := managerCalls) (.store call)) before before := by
  have hasks : (p.expand fun call => ask (I := managerCalls) (.store call)).Asks
      (fun c : ManagerCall => rule c before = some before) fun _ => True := by
    refine asks_expand_of_forall (fun c post h => ?_) p
    exact ⟨rfl, h⟩
  exact heeds_of_asks hasks

/-- **A pass is made under the lock,** and gives it back, also when it fails. -/
theorem heeds_reconcile (c : Controller) : Heeds id (reconcile c) false false := by
  have hasks : ((pass c).run.expand fun call => ask (I := managerCalls) (.replica call)).Asks
      (fun c : ManagerCall => rule c true = some true) fun _ => True := by
    refine asks_expand_of_forall (fun c post h => ?_) (pass c).run
    exact ⟨rfl, h⟩
  have hbody : Heeds id ((pass c).run.expand fun call => ask (I := managerCalls) (.replica call))
      true true := heeds_of_asks hasks
  exact ⟨true, rfl, fun _ => hbody.bind fun outcome => ⟨false, rfl, fun _ => rfl⟩⟩

theorem heeds_reconcileEach (controllers : List Controller) :
    Heeds id (reconcileEach controllers) false false := by
  induction controllers with
  | nil => rfl
  | cons c controllers ih => exact (heeds_reconcile c).bind fun _ => ih

theorem heeds_reconcileAll : Heeds id reconcileAll false false := by
  refine (heeds_onStore _ false).bind fun listed => ?_
  cases listed with
  | ok controllers => exact heeds_reconcileEach controllers
  | error e => rfl

/-- A change may lead to a pass, or to nothing. -/
theorem heeds_change (w : WatchId) (change : Change) :
    Heeds id (do
      if let .ok (some controller) := controllerOf change then
        let _ ← reconcile controller
      return Following.receiving w : Program managerCalls Following) false false := by
  rcases controllerOf change with e | _ | controller
  · rfl
  · rfl
  · exact (heeds_reconcile controller).bind fun _ => rfl

theorem heeds_round (s : ManagerSettings) (stage : Following) :
    Heeds id (stage.round s) false false := by
  cases stage with
  | subscribing =>
    refine ⟨false, rfl, fun opened => ?_⟩
    cases opened with
    | ok w => rfl
    | error e => exact ⟨false, rfl, fun _ => rfl⟩
  | receiving w =>
    refine ⟨false, rfl, fun received => ?_⟩
    cases received with
    | none => exact ⟨false, rfl, fun _ => rfl⟩
    | some change => exact heeds_change w change

/-- So is every pass of an errand. -/
theorem Errand.heeds_work (m : Manager) (e : Errand) :
    Heeds Prod.fst (e.work m) false false := by
  refine Heeds.carried_out m ?_
  cases e with
  | pass c => exact (heeds_reconcile c).bind fun _ => rfl
  | scan =>
    have hround : Heeds id (scanRound m.settings) false false :=
      heeds_reconcileAll.bind fun _ => ⟨false, rfl, fun _ => rfl⟩
    exact hround.bind fun _ => rfl
  | following stage => exact (heeds_round m.settings stage).bind fun _ => rfl

end

/-- The marks tell the calls that move the lock. -/
def Fits : managedCalls.Call → Prop
  | (.acquire, c) => c = .acquire .passes
  | (.release, c) => c = .release .passes
  | (_, c) => c.OffPasses

theorem Fits.cases {c : managedCalls.Call} (h : Fits c) :
    (c.1 = .acquire ∧ c.2 = .acquire .passes) ∨ (c.1 = .release ∧ c.2 = .release .passes) ∨
      (c.1 ≠ .acquire ∧ c.1 ≠ .release ∧ c.2.OffPasses) := by
  obtain ⟨purpose, wc⟩ := c
  cases purpose with
  | acquire => exact .inl ⟨rfl, h⟩
  | release => exact .inr (.inl ⟨rfl, h⟩)
  | _ => exact .inr (.inr ⟨nofun, nofun, h⟩)

theorem Errand.asks_work (m : Manager) (e : Errand) : (e.work m).Asks Fits fun _ => True := by
  refine asks_expand_of_forall (I := managerCalls) (fun c post hpost => ?_) _
  have hmark : c ≠ .acquire → c ≠ .release → (∀ wc : WorldCall, wc.OffPasses → Fits (c, wc)) →
      ((m.ofManager c).mark c).Asks Fits post := fun hacquire hrelease hfits =>
    asks_mark (((m.asks_ofManager hacquire hrelease).mono_calls hfits).mono fun a _ => hpost a)
  cases c with
  | acquire => exact ⟨rfl, hpost⟩
  | release => exact ⟨rfl, hpost⟩
  | store c => exact hmark nofun nofun fun _ h => h
  | replica c => exact hmark nofun nofun fun _ h => h
  | wait d => exact hmark nofun nofun fun _ h => h
  | receive w => exact hmark nofun nofun fun _ h => h

/-! ### Many at once -/

/-- What is under way: a world, the errands with what is left of them, and the calls that have been
answered, in order. -/
structure Floor where
  world : World
  workers : TicketId → Option (Program managedCalls (Option Errand))
  log : List (TicketId × managedCalls.Call)

/-- What may be reached by any number of errands. -/
inductive Floor.Reachable (m : Manager) : Floor → Prop
  | empty {w : World} : w.passLock = [] → Reachable m ⟨w, fun _ => none, []⟩
  /-- An errand is begun. -/
  | begins {f : Floor} {ticket : TicketId} (e : Errand) : Reachable m f →
      f.workers ticket = none →
      Reachable m { f with workers := Function.update f.workers ticket (some (e.work m)) }
  /-- A call is answered. -/
  | answered {f : Floor} {ticket : TicketId} {c : managedCalls.Call}
      {next : managedCalls.Answer c → Program managedCalls (Option Errand)}
      {a : managedCalls.Answer c} {w : World} : Reachable m f →
      f.workers ticket = some (.call c next) → f.world.attempt ticket c.2 = (some a, w) →
      Reachable m ⟨w, Function.update f.workers ticket (some (next a)), f.log ++ [(ticket, c)]⟩
  /-- A call has to wait. -/
  | waits {f : Floor} {ticket : TicketId} {c : managedCalls.Call}
      {next : managedCalls.Answer c → Program managedCalls (Option Errand)} {w : World} :
      Reachable m f → f.workers ticket = some (.call c next) →
      f.world.attempt ticket c.2 = (none, w) → Reachable m { f with world := w }
  /-- A driver goes on to its next round. -/
  | goesOn {f : Floor} {ticket : TicketId} {e : Errand} : Reachable m f →
      f.workers ticket = some (.done (some e)) →
      Reachable m { f with workers := Function.update f.workers ticket (some (e.work m)) }
  /-- An errand is over. -/
  | ends {f : Floor} {ticket : TicketId} : Reachable m f →
      f.workers ticket = some (.done none) →
      Reachable m { f with workers := Function.update f.workers ticket none }
  /-- Something else happens in the world. -/
  | elsewhere {f : Floor} {w : World} : Reachable m f → w.passLock = f.world.passLock →
      Reachable m { f with world := w }

/-- A call that is made for a pass. -/
def OfPass (c : managedCalls.Call) : Prop := ∃ r, c.1 = .replica r

/-- No call of a pass stands between two calls of another one. Two calls of one program belong to
the same pass if the program was not given the lock in between. -/
def Serial (log : List (TicketId × managedCalls.Call)) : Prop :=
  ∀ ticket c c' before between after,
    log = before ++ (ticket, c) :: (between ++ (ticket, c') :: after) → OfPass c → OfPass c' →
    (∀ x ∈ between, x.1 = ticket → x.2.1 ≠ .acquire) →
    ∀ x ∈ between, OfPass x.2 → x.1 = ticket

/-! ### Who has the lock -/

/-- Whether a program has the lock, by the calls that it has made. -/
def holds (ticket : TicketId) (log : List (TicketId × managedCalls.Call)) : Bool :=
  log.foldl (fun b x => if x.1 = ticket then (rule x.2.1 b).getD b else b) false

section

variable {ticket ticket' : TicketId} {c : managedCalls.Call}
  {log before after : List (TicketId × managedCalls.Call)}

theorem holds_append_self (ticket : TicketId) (log : List (TicketId × managedCalls.Call))
    (c : managedCalls.Call) :
    holds ticket (log ++ [(ticket, c)]) =
      (rule c.1 (holds ticket log)).getD (holds ticket log) := by
  rw [holds, List.foldl_append]
  exact if_pos rfl

theorem holds_append_of_ne (h : ticket ≠ ticket') :
    holds ticket' (log ++ [(ticket, c)]) = holds ticket' log := by
  rw [holds, List.foldl_append]
  exact if_neg h

/-- Nobody gets the lock without asking for it. -/
theorem holds_append_of_not_acquire (hbefore : holds ticket before = false)
    (h : ∀ x ∈ after, x.1 = ticket → x.2.1 ≠ .acquire) :
    holds ticket (before ++ after) = false := by
  induction after using List.reverseRecOn with
  | nil => rwa [List.append_nil]
  | append_singleton after x ih =>
    have hafter := ih fun y hy => h y (List.mem_append_left _ hy)
    rw [← List.append_assoc]
    obtain ⟨who, c⟩ := x
    by_cases hwho : who = ticket
    · subst hwho
      have hc : c.1 ≠ .acquire :=
        h (who, c) (List.mem_append_right _ (List.mem_singleton_self _)) rfl
      rw [holds_append_self, hafter]
      obtain ⟨c, wc⟩ := c
      cases c with
      | acquire => exact absurd rfl hc
      | _ => rfl
    · rw [holds_append_of_ne hwho, hafter]

/-- Every call of a pass is made by the one program that has the lock. -/
def Guarded (log : List (TicketId × managedCalls.Call)) : Prop :=
  ∀ before ticket c after, log = before ++ (ticket, c) :: after → OfPass c →
    ∀ ticket', holds ticket' before = true ↔ ticket' = ticket

theorem Guarded.serial (h : Guarded log) : Serial log := by
  intro ticket c c' before between after hlog _ hc' hacquire x hx hpass
  obtain ⟨between, rest, rfl⟩ := List.append_of_mem hx
  obtain ⟨who, call⟩ := x
  have hwho := h (before ++ (ticket, c) :: between) who call (rest ++ (ticket, c') :: after)
    (by simpa using hlog) hpass
  have hticket := h (before ++ (ticket, c) :: between ++ (who, call) :: rest) ticket c' after
    (by simpa using hlog) hc'
  -- otherwise the program does not have the lock at its second call either
  refine ((hwho ticket).mp ?_).symm
  by_contra hfree
  have hlast := holds_append_of_not_acquire (Bool.eq_false_iff.mpr hfree)
    fun y hy => hacquire y (List.mem_append_right _ hy)
  rw [(hticket ticket).mpr rfl] at hlast
  cases hlast

end

/-! ### The invariant -/

/-- What is left of an errand that has the lock, or does not have it. -/
structure Due (has : Bool) (p : Program managedCalls (Option Errand)) : Prop where
  heeds : Heeds Prod.fst p has false
  fits : p.Asks Fits fun _ => True

/-- Errands keep the rule, and a program that has the lock is the first in its queue. -/
structure Floor.Sound (f : Floor) : Prop where
  due : ∀ ticket p, f.workers ticket = some p → Due (holds ticket f.log) p
  idle : ∀ ticket, f.workers ticket = none → holds ticket f.log = false
  first : ∀ ticket, holds ticket f.log = true → f.world.passLock.head? = some ticket
  guarded : Guarded f.log

theorem Errand.due_work (m : Manager) (e : Errand) : Due false (e.work m) :=
  ⟨e.heeds_work m, e.asks_work m⟩

namespace Floor.Sound

variable {f : Floor} {ticket : TicketId} {c : managedCalls.Call} {w : World}
  {next : managedCalls.Answer c → Program managedCalls (Option Errand)}
  {p : Program managedCalls (Option Errand)}

/-- A worker begins or goes on without having made a call. -/
theorem setWorker (h : f.Sound) (hholds : holds ticket f.log = false) (hp : Due false p) :
    Sound { f with workers := Function.update f.workers ticket (some p) } where
  due ticket' p' hp' := by
    by_cases heq : ticket' = ticket
    · subst heq
      obtain rfl : p = p' := by simpa using hp'
      exact hholds ▸ hp
    · exact h.due ticket' p' (by simpa [heq] using hp')
  idle ticket' hnone := by
    by_cases heq : ticket' = ticket
    · exact heq ▸ hholds
    · exact h.idle ticket' (by simpa [heq] using hnone)
  first := h.first
  guarded := h.guarded

/-- Only the queue of the lock counts; whatever else changes in the world has no say in who holds
it. -/
theorem setWorld (h : f.Sound)
    (hfirst : ∀ ticket, f.world.passLock.head? = some ticket → w.passLock.head? = some ticket) :
    Sound { f with world := w } :=
  ⟨h.due, h.idle, fun ticket hholds => hfirst ticket (h.first ticket hholds), h.guarded⟩

/-- A call that has to wait leaves who is first in the queue. -/
theorem waits (h : f.Sound) (hwaits : (f.world.attempt ticket c.2).1 = none) :
    Sound { f with world := (f.world.attempt ticket c.2).2 } := by
  refine h.setWorld fun ticket' hfirst => ?_
  by_cases hacquire : c.2 = .acquire .passes
  · rw [hacquire]
    exact head?_join hfirst
  by_cases hrelease : c.2 = .release .passes
  · rw [hrelease] at hwaits
    cases hwaits
  · rwa [World.passLock_attempt ⟨hacquire, hrelease⟩]

/-- **A program that has the lock after a call that is answered is the first in its queue.** -/
theorem first_answered (h : f.Sound) (hp : f.workers ticket = some (.call c next))
    (hanswered : (f.world.attempt ticket c.2).1.isSome = true) (ticket' : TicketId)
    (hholds : holds ticket' (f.log ++ [(ticket, c)]) = true) :
    (f.world.attempt ticket c.2).2.passLock.head? = some ticket' := by
  obtain ⟨⟨b, hrule, -⟩, hfits, -⟩ := h.due ticket _ hp
  rcases hfits.cases with ⟨hpurpose, hcall⟩ | ⟨hpurpose, hcall⟩ | ⟨hacquire, hrelease, hoff⟩
  · -- the lock was given to the program
    rw [hcall] at hanswered ⊢
    by_cases heq : ticket = ticket'
    · subst heq
      exact World.head?_of_acquire hanswered
    · rw [holds_append_of_ne heq] at hholds
      exact head?_join (h.first ticket' hholds)
  · -- the program has given it back, and nobody else had it
    have hbefore : holds ticket f.log = true := by
      rw [hpurpose] at hrule
      cases hb : holds ticket f.log with
      | true => rfl
      | false =>
        rw [hb] at hrule
        cases hrule
    by_cases heq : ticket = ticket'
    · subst heq
      rw [holds_append_self, hbefore, hpurpose] at hholds
      cases hholds
    · rw [holds_append_of_ne heq] at hholds
      have hfirst := (h.first ticket hbefore).symm.trans (h.first ticket' hholds)
      exact absurd (Option.some.inj hfirst) heq
  · rw [World.passLock_attempt hoff]
    refine h.first ticket' ?_
    by_cases heq : ticket = ticket'
    · subst heq
      rw [holds_append_self, hrule] at hholds
      exact (eq_of_rule hacquire hrelease hrule).symm.trans hholds
    · rwa [holds_append_of_ne heq] at hholds

/-- **A call of a pass is made by the one program that has the lock.** -/
theorem guarded_answered (h : f.Sound) (hp : f.workers ticket = some (.call c next)) :
    Guarded (f.log ++ [(ticket, c)]) := by
  intro before who call after hlog hpass ticket'
  rcases List.eq_nil_or_concat after with rfl | ⟨after, last, rfl⟩
  · obtain ⟨rfl, hlast⟩ := List.append_inj' hlog rfl
    obtain ⟨rfl, rfl⟩ := Prod.mk.inj (List.head_eq_of_cons_eq hlast)
    obtain ⟨⟨b, hrule, -⟩, -⟩ := h.due ticket _ hp
    have hholds : holds ticket f.log = true := by
      obtain ⟨r, hr⟩ := hpass
      rw [hr] at hrule
      cases hb : holds ticket f.log with
      | true => rfl
      | false =>
        rw [hb] at hrule
        cases hrule
    refine ⟨fun hholds' => ?_, fun heq => heq ▸ hholds⟩
    exact Option.some.inj ((h.first ticket' hholds').symm.trans (h.first ticket hholds))
  · rw [List.concat_eq_append, ← List.cons_append, ← List.append_assoc] at hlog
    exact h.guarded before who call after (List.append_inj' hlog rfl).1 hpass ticket'

theorem answered (h : f.Sound) (hp : f.workers ticket = some (.call c next))
    (hanswered : (f.world.attempt ticket c.2).1.isSome = true) (a : managedCalls.Answer c) :
    Sound ⟨(f.world.attempt ticket c.2).2, Function.update f.workers ticket (some (next a)),
      f.log ++ [(ticket, c)]⟩ where
  due ticket' p' hp' := by
    by_cases heq : ticket' = ticket
    · subst heq
      obtain rfl : next a = p' := by simpa using hp'
      obtain ⟨⟨b, hrule, hnext⟩, -, hfits⟩ := h.due ticket' _ hp
      rw [holds_append_self, hrule]
      exact ⟨hnext a, hfits a⟩
    · rw [holds_append_of_ne (Ne.symm heq)]
      exact h.due ticket' p' (by simpa [heq] using hp')
  idle ticket' hnone := by
    by_cases heq : ticket' = ticket
    · subst heq
      simp at hnone
    · rw [holds_append_of_ne (Ne.symm heq)]
      exact h.idle ticket' (by simpa [heq] using hnone)
  first := h.first_answered hp hanswered
  guarded := h.guarded_answered hp

theorem ends (h : f.Sound) (hp : f.workers ticket = some (.done none)) :
    Sound { f with workers := Function.update f.workers ticket none } where
  due ticket' p' hp' := by
    by_cases heq : ticket' = ticket
    · subst heq
      simp at hp'
    · exact h.due ticket' p' (by simpa [heq] using hp')
  idle ticket' hnone := by
    by_cases heq : ticket' = ticket
    · exact heq ▸ (h.due ticket _ hp).heeds
    · exact h.idle ticket' (by simpa [heq] using hnone)
  first := h.first
  guarded := h.guarded

end Floor.Sound

/-- Everything that is reached is sound. -/
theorem Floor.Reachable.sound {m : Manager} {f : Floor} (h : f.Reachable m) : f.Sound := by
  induction h with
  | empty hlock =>
    refine ⟨nofun, fun _ _ => rfl, nofun, fun before ticket c after hlog => ?_⟩
    cases before <;> cases hlog
  | begins e _ hfree ih => exact ih.setWorker (ih.idle _ hfree) (e.due_work m)
  | @answered f ticket c next a w _ hp hattempt ih =>
    have hanswered : (f.world.attempt ticket c.2).1.isSome = true := by rw [hattempt]; rfl
    have hsound := ih.answered hp hanswered a
    rwa [hattempt] at hsound
  | @waits f ticket c next w _ hp hattempt ih =>
    have hnone : (f.world.attempt ticket c.2).1 = none := by rw [hattempt]
    have hsound := ih.waits hnone
    rwa [hattempt] at hsound
  | goesOn _ hp ih => exact ih.setWorker (ih.due _ _ hp).heeds (Errand.due_work m _)
  | ends _ hp ih => exact ih.ends hp
  | elsewhere _ hlock ih => exact ih.setWorld fun ticket hfirst => by rwa [hlock]

/-- **Passes exclude each other.** Whatever errands are begun at any time, whatever turns their
calls take, whichever calls fail and whatever else happens meanwhile: no call of a pass stands
between two calls of another one. -/
theorem Floor.Reachable.serial {m : Manager} {f : Floor} (h : f.Reachable m) : Serial f.log :=
  h.sound.guarded.serial

/-! ### Turns that are given -/

/-- What is under way after a program has tried to make its next call. -/
def Floor.turn (f : Floor) (ticket : TicketId) : Floor :=
  match f.workers ticket with
  | some (.call c next) =>
    match f.world.attempt ticket c.2 with
    | (some a, w) =>
      ⟨w, Function.update f.workers ticket (some (next a)), f.log ++ [(ticket, c)]⟩
    | (none, w) => { f with world := w }
  | _ => f

theorem Floor.Reachable.turn {m : Manager} {f : Floor} (h : f.Reachable m) (ticket : TicketId) :
    (f.turn ticket).Reachable m := by
  rw [Floor.turn]
  split
  · rename_i c next hworker
    rcases hattempt : f.world.attempt ticket c.2 with ⟨_ | a, w⟩
    · exact .waits h hworker hattempt
    · exact .answered h hworker hattempt
  · exact h

theorem Floor.Reachable.turns {m : Manager} {f : Floor} (h : f.Reachable m)
    (tickets : List TicketId) : (tickets.foldl Floor.turn f).Reachable m := by
  induction tickets generalizing f with
  | nil => exact h
  | cons ticket tickets ih => exact ih (h.turn ticket)

end Rehearsal

end ControlPlane
