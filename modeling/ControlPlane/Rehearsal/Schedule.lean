import ControlPlane.Rehearsal.Wiring

/-!
# Schedules

In a rehearsal many programs are under way in one world: the endless ones in the background, and
those of the current step. One of them makes its calls until a call has to wait; then another one
goes on, those of the step first and the others in the order in which they began to wait. Only when
all of them wait, and the step is not finished, the clock moves, to the first moment for which one
of them waits. After a step the background goes on until all of it waits.

Nothing bounds how often an endless program can go on without waiting, so a schedule has a patience,
after which it is given up.
-/

namespace ControlPlane

namespace Rehearsal

open WorldProgram

/-- What a sync loop does with a list. -/
inductive Handler where
  /-- Makes a pass on its host. -/
  | converge
  /-- Writes the list down, and fails if it shall. -/
  | record (fails : Bool)
deriving DecidableEq, Inhabited

/-- An endless program of the control plane between two rounds. It is kept as what the next round
begins with, since a program itself is finite. -/
inductive Process where
  | watcher (s : NodeSettings) (feed : FeedId) (stage : Node.Watching)
  | syncLoop (host : String) (s : NodeSettings) (feed : FeedId) (handler : Handler)
    (stage : Node.SyncLoop)
  | scan (m : Manager)
  | following (m : Manager) (stage : Replication.Following)
deriving Inhabited

/-- Carries out what a sync loop does with a list. -/
def Handler.sync (host : String) (s : NodeSettings) (manifests : List Manifest) :
    Handler → WorldProgram (Except Error Unit)
  | converge => (Node.pass s manifests).run.expand (ofNode host)
  | record fails => do
    let _ ← ask (.log host manifests)
    return if fails then .error (.engine "this pass shall fail") else .ok ()

/-- One round of a process, and what it goes on as; nothing if it has ended. -/
def Process.round : Process → WorldProgram (Option Process)
  | watcher s feed stage => do
    let next ← (stage.round s).expand (ofWatcher feed)
    return next.map (watcher s feed)
  | syncLoop host s feed handler stage => do
    let next ← (stage.round s).expand (ofLoop feed fun manifests => handler.sync host s manifests)
    return some (syncLoop host s feed handler next)
  | scan m => do
    (Replication.scanRound m.settings).expand m.ofManager
    return some (scan m)
  | following m stage => do
    let next ← (stage.round m.settings).expand m.ofManager
    return some (following m next)

/-- A program of the background under way. -/
structure Ticket where
  id : TicketId
  program : WorldProgram (Option Process)

/-- A program of a step under way, whose result is waited for. -/
structure Job (α : Type) where
  id : TicketId
  program : WorldProgram α

/-- What a watch under a name reads from. -/
inductive Source where
  /-- A subscription of the store. -/
  | subscription (w : WatchId)
  /-- A feed that no store writes to. -/
  | bare (feed : Feed Change)
deriving Inhabited

end Rehearsal

open Rehearsal in
/-- The state of a rehearsal between two steps. -/
structure Rehearsal where
  manager : Manager := {}
  world : World := {}
  /-- The background, in the order in which it began to wait. -/
  tickets : List Ticket := []
  /-- How many programs have been started, which gives the next one its number. -/
  started : Nat := 0
  /-- The watches that were opened by steps, by their names. -/
  watches : KeyMap Source := .empty

namespace Rehearsal

open WorldProgram

variable {α : Type}

/-- Lets a program make calls until one has to wait. That call stands at the front of what is left
and is made again later. -/
def World.advance (ticket : TicketId) : WorldProgram α → World → WorldProgram α × World
  | .done a, w => (.done a, w)
  | .call c next, w =>
    match w.attempt ticket c with
    | (some answer, w) => advance ticket (next answer) w
    | (none, w) => (.call c next, w)

/-- Whether a program can go on. -/
def World.ready (w : World) (ticket : TicketId) : WorldProgram α → Bool
  | .done _ => true
  | .call c _ => (w.attempt ticket c).1.isSome

/-- The moment until which a program waits at most. -/
def limitOf? : WorldProgram α → Option Moment
  | .done _ => none
  | .call c _ => World.limit? c

/-- The earlier of two moments, where none is later than any. -/
def earlier : Option Moment → Option Moment → Option Moment
  | some a, some b => some (min a b)
  | a, none => a
  | none, b => b

/-- How often a schedule goes on before it is given up. It is there for a background that never
comes to rest, as one with a wait of no length does not. -/
def patience : Nat := 1000000

/-- Starts a process in the background, at the end of the queue. -/
def start (r : Rehearsal) (p : Process) : TicketId × Rehearsal :=
  (r.started, { r with tickets := r.tickets ++ [⟨r.started, p.round⟩], started := r.started + 1 })

/-- The rehearsal after the first program of the background that can go on has done so. One that has
finished a round goes on with the next before others have their turn. -/
def turn? (r : Rehearsal) : Option Rehearsal :=
  match r.tickets.span fun t => !r.world.ready t.id t.program with
  | (_, []) => none
  | (before, t :: after) =>
    match r.world.advance t.id t.program with
    | (.done none, w) => some { r with world := w, tickets := before ++ after }
    | (.done (some p), w) =>
      some { r with world := w, tickets := ⟨t.id, p.round⟩ :: (before ++ after) }
    | (program, w) =>
      some { r with world := w, tickets := before ++ after ++ [⟨t.id, program⟩] }

/-- Lets the background go on until all of it waits, or the patience is at its end. -/
def settle (r : Rehearsal) : (patience : Nat) → Rehearsal
  | 0 => r
  | patience + 1 =>
    match r.turn? with
    | some r => r.settle patience
    | none => r

/-- Lets the programs of a step make calls, one after the other. -/
def advanceJobs : List (Job α) → World → List (Job α) × World
  | [], w => ([], w)
  | job :: jobs, w =>
    let (program, w) := w.advance job.id job.program
    let (jobs, w) := advanceJobs jobs w
    (⟨job.id, program⟩ :: jobs, w)

/-- The result of a program that is done. -/
def Job.result? (job : Job α) : Option α :=
  match job.program with
  | .done a => some a
  | .call .. => none

/-- The first moment for which a program waits. The clock is set to it and not beyond, so that
nobody waits longer than asked. -/
def nextMoment? (jobs : List (Job α)) (r : Rehearsal) : Option Moment :=
  ((jobs.map fun job => limitOf? job.program) ++ r.tickets.map fun t => limitOf? t.program).foldl
    earlier none

/-- Lets everything go on until the programs of a step are done. Time only passes when nobody can go
on without it. -/
def finish (jobs : List (Job α)) (r : Rehearsal) : (patience : Nat) → List (Job α) × Rehearsal
  | 0 => (jobs, r)
  | patience + 1 =>
    let (jobs, w) := advanceJobs jobs r.world
    let r := { r with world := w }
    if jobs.all fun job => job.result?.isSome then (jobs, r)
    else if jobs.any fun job => job.result?.isNone && w.ready job.id job.program then
      finish jobs r patience
    else
      match r.turn? with
      | some r => finish jobs r patience
      | none =>
        match nextMoment? jobs r with
        | some moment => finish jobs { r with world := { w with clock := moment } } patience
        | none => (jobs, r)

/-- Carries out programs that are started together, in order, and gives their results. A program
that waits for something that never comes has none. -/
def performAll (programs : List (WorldProgram α)) (r : Rehearsal) : List (Option α) × Rehearsal :=
  let jobs := programs.zipIdx.map fun (program, k) => ⟨r.started + k, program⟩
  let (jobs, r) := finish jobs { r with started := r.started + programs.length } patience
  (jobs.map Job.result?, r.settle patience)

/-- Carries out one program. -/
def perform (program : WorldProgram α) (r : Rehearsal) : Option α × Rehearsal :=
  let (results, r) := performAll [program] r
  (results.head?.join, r)

end Rehearsal

end ControlPlane
