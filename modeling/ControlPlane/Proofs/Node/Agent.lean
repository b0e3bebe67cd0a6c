import ControlPlane.Proofs.Program.Ensures
import ControlPlane.Rehearsal.Schedule

/-!
# The first stop of a node agent

A node agent is two endless programs, the watcher and the sync loop, with a feed between them and a
clock that both read. Here they run in any interleaving, and time passes at any moment. The store
and the engine may answer whatever they like, so every pattern of failing calls is among the runs.

The sync loop begins with an empty list and makes a pass when a list comes or its timer fires,
whichever is first. Before that it only looks at the clock and waits, so nothing is stopped as long
as no list has been handed on and the timer of the first round has not fired; this is
`Agent.stops_late`.

That is all that can be promised. While the store cannot be read the watcher hands nothing on, the
timer fires, and a pass for the empty list stops everything that runs. `Agent.outage_stops` is that
run for all settings, at the very moment of the bound.

## Main definitions

* `Agent`, `Agent.Step`, `Agent.Reachable`: an agent, what it may do, and where that leads
* `Agent.Stopping`: a container is to be stopped next
* `Calm`: what a sync loop may be at before its first timer fires

## Main results

* `Agent.stops_late`: nothing is stopped before a list has been handed on or the timer has fired
* `Agent.outage_stops`: at that moment running containers are stopped though the store never
  answered
-/

namespace ControlPlane.Node

open Program Rehearsal

/-- A node agent at work: its two programs, each between two calls, and what they share. -/
structure Agent where
  clock : Moment
  /-- The feed from the watcher to the sync loop. -/
  lists : Feed (List Manifest)
  watcher : WorldProgram (Option Process)
  loop : WorldProgram (Option Process)
  /-- Whether a list has ever been handed on. -/
  told : Bool

/-- Handing a list on, once there is room for it or nobody takes it. -/
def Sends (lists : Feed (List Manifest)) (manifests : List Manifest) (taken : Bool)
    (lists' : Feed (List Manifest)) : Prop :=
  lists.offer manifests = (if taken then .taken else .closed, lists')

/-- What a call may be answered, and what becomes of the feed. The clock and the feed do as they
always do; everything else may answer whatever it likes. -/
def Answers (now : Moment) (lists : Feed (List Manifest)) :
    (c : WorldCall) → c.Answer → Feed (List Manifest) → Prop
  | .now, moment, lists' => moment = now ∧ lists' = lists
  | .waitUntil moment, _, lists' => moment ≤ now ∧ lists' = lists
  | .send _ manifests, taken, lists' => Sends lists manifests taken lists'
  | .receiveList _ limit, found, lists' =>
    World.awaited now (some limit) lists.receive.1 = some found ∧ lists' = lists.receive.2
  | _, _, lists' => lists' = lists

/-- Whether a list is handed on by a call with its answer. -/
def HandsOn : (c : WorldCall) → c.Answer → Bool
  | .send .., taken => taken
  | _, _ => false

/-- Whether a program is about to stop a container. -/
def IsStopping {α : Type} : WorldProgram α → Prop
  | .call (.engine _ (.stop ..)) _ => True
  | _ => False

namespace Agent

/-- The agent after the engine was reached: the watcher is there and the sync loop begins. -/
def start (s : NodeSettings) (begun : Moment) : Agent where
  clock := begun
  lists := { capacity := 1 }
  watcher := .done (some (.watcher s 0 .start))
  loop := .done (some (.syncLoop s.hostname s 0 .converge {}))
  told := false

/-- What may happen next. Nothing says that it happens soon, so the agent may be as slow as it
likes; what it never does is let a moment pass unanswered that it waits for. -/
inductive Step : Agent → Agent → Prop
  | pass (a : Agent) (d : Nat) : Step a { a with clock := a.clock + d }
  | watch {a : Agent} {c : WorldCall} {next : c.Answer → WorldProgram (Option Process)}
      {r : c.Answer} {lists : Feed (List Manifest)} :
      a.watcher = .call c next → Answers a.clock a.lists c r lists →
      Step a { a with watcher := next r, lists, told := a.told || HandsOn c r }
  | watchOn {a : Agent} {p : Process} : a.watcher = .done (some p) →
      Step a { a with watcher := p.round }
  /-- The watcher ends and lets go of the feed. -/
  | watchEnd {a : Agent} : a.watcher = .done none → Step a { a with lists := a.lists.detach }
  | sync {a : Agent} {c : WorldCall} {next : c.Answer → WorldProgram (Option Process)}
      {r : c.Answer} {lists : Feed (List Manifest)} :
      a.loop = .call c next → Answers a.clock a.lists c r lists →
      Step a { a with loop := next r, lists, told := a.told || HandsOn c r }
  | syncOn {a : Agent} {p : Process} : a.loop = .done (some p) → Step a { a with loop := p.round }

/-- The states of an agent that began at a moment. -/
inductive Reachable (s : NodeSettings) (begun : Moment) : Agent → Prop
  | start : Reachable s begun (start s begun)
  | step {a b : Agent} : Reachable s begun a → Step a b → Reachable s begun b

/-- A container is to be stopped next, by whichever of the two programs. -/
def Stopping (a : Agent) : Prop := IsStopping a.watcher ∨ IsStopping a.loop

end Agent

/-! ### The watcher -/

/-- A call that the watcher of a host may make of the world. -/
def IsWatching : WorldCall → Prop
  | .engine .. => False
  | _ => True

/-- Whether the watcher of an agent goes on as such, or ends. -/
def IsWatcher (s : NodeSettings) : Option Process → Prop
  | some (.watcher s' _ _) => s' = s
  | none => True
  | _ => False

theorem asks_ofWatcher {feed : FeedId} (c : WatcherCall) (post : c.Answer → Prop)
    (h : ∀ answer, post answer) : (WorldProgram.ofWatcher feed c).Asks IsWatching post := by
  cases c with
  | store c => exact ⟨trivial, h⟩
  | send manifests => exact ⟨trivial, h⟩
  | wait d => exact ⟨trivial, fun _ => ⟨trivial, h⟩⟩
  | ahead d => exact ⟨trivial, fun _ => h _⟩
  | receive w limit => exact ⟨trivial, h⟩
  | stop w => exact ⟨trivial, h⟩

/-- A watcher never turns to the engine. Only the sync loop stops containers, so what is stopped is
a matter of the list that the loop holds. -/
theorem asks_watcher_round (s : NodeSettings) (feed : FeedId) (stage : Watching) :
    (Process.watcher s feed stage).round.Asks IsWatching (IsWatcher s) := by
  refine asks_bind.mpr ((asks_expand_of_forall asks_ofWatcher (stage.round s)).mono ?_)
  rintro (_ | stage') -
  · trivial
  · rfl

/-! ### The sync loop before its first timer -/

/-- What a sync loop may be at while no list has come and its first timer has not fired: it looks at
the clock, or waits for a list or a moment, and for no moment before `due`. -/
inductive Calm (s : NodeSettings) (begun due : Moment) : WorldProgram (Option Process) → Prop
  | between (feed : FeedId) (stage : SyncLoop) :
      Calm s begun due (.done (some (.syncLoop s.hostname s feed .converge stage)))
  | look {next : Moment → WorldProgram (Option Process)} :
      (∀ moment, begun ≤ moment → Calm s begun due (next moment)) →
      Calm s begun due (.call (I := worldCalls) .now next)
  | receive {feed : FeedId} {limit : Moment}
      {next : Received (List Manifest) → WorldProgram (Option Process)} :
      due ≤ limit → Calm s begun due (next .ended) →
      Calm s begun due (.call (I := worldCalls) (.receiveList feed limit) next)
  | wait {limit : Moment} {next : Unit → WorldProgram (Option Process)} :
      due ≤ limit → Calm s begun due (.call (I := worldCalls) (.waitUntil limit) next)

theorem calm_syncLoop_round (s : NodeSettings) (begun : Moment) (feed : FeedId)
    (stage : SyncLoop) :
    Calm s begun (begun + s.syncFrequency.toNanos)
      (Process.syncLoop s.hostname s feed .converge stage).round := by
  rcases stage with ⟨current, _ | _⟩
  · exact .look fun moment h => .wait (Nat.add_le_add_right h _)
  · exact .look fun moment h => .receive (Nat.add_le_add_right h _) (.between feed _)

theorem Calm.not_isStopping {s : NodeSettings} {begun due : Moment}
    {p : WorldProgram (Option Process)} (h : Calm s begun due p) : ¬ IsStopping p := by
  cases h <;> exact id

/-- As long as the timer has not fired and the feed is empty, a calm sync loop stays calm. -/
theorem Calm.answered {s : NodeSettings} {begun due now : Moment} {c : WorldCall}
    {next : c.Answer → WorldProgram (Option Process)} {answer : c.Answer}
    {lists lists' : Feed (List Manifest)} (h : Calm s begun due (.call c next))
    (hbegun : begun ≤ now) (hdue : now < due) (hlists : lists.pending = [])
    (hanswer : Answers now lists c answer lists') : Calm s begun due (next answer) := by
  cases h with
  | look h =>
    obtain ⟨rfl, -⟩ := hanswer
    exact h _ hbegun
  | @receive feed limit next hlimit hended =>
    obtain ⟨hfound, -⟩ := hanswer
    have hnot : ¬ limit ≤ now := Nat.not_le_of_lt (Nat.lt_of_lt_of_le hdue hlimit)
    unfold Feed.receive at hfound
    rw [hlists] at hfound
    cases hlive : lists.isLive with
    | true => simp [hlive, World.awaited, hnot] at hfound
    | false =>
      simp only [hlive, World.awaited] at hfound
      obtain rfl : Received.ended = answer := Option.some.inj hfound
      exact hended
  | wait hlimit =>
    obtain ⟨hmoment, -⟩ := hanswer
    exact absurd (Nat.lt_of_lt_of_le hdue hlimit) (Nat.not_lt_of_le hmoment)

/-! ### What every run keeps -/

theorem Sends.eq_of_not_taken {lists lists' : Feed (List Manifest)} {manifests : List Manifest}
    (h : Sends lists manifests false lists') : lists' = lists := by
  unfold Sends Feed.offer at h
  split at h
  · exact (congrArg Prod.snd h).symm
  · split at h <;> cases h

/-- A call that hands nothing on leaves an empty feed empty. -/
theorem pending_of_answers {now : Moment} {lists lists' : Feed (List Manifest)} {c : WorldCall}
    {answer : c.Answer} (hanswer : Answers now lists c answer lists')
    (hhandsOn : HandsOn c answer = false) (hlists : lists.pending = []) : lists'.pending = [] := by
  cases c with
  | send feed manifests =>
    obtain rfl : answer = false := hhandsOn
    rwa [Sends.eq_of_not_taken hanswer]
  | receiveList feed limit =>
    rw [hanswer.2]
    simp [Feed.receive, hlists]
  | now => rw [hanswer.2, hlists]
  | waitUntil moment => rw [hanswer.2, hlists]
  | _ => rw [show lists' = lists from hanswer, hlists]

namespace Agent

/-- What is true of an agent in every state: its watcher is a watcher, and as long as no list has
been handed on the feed is empty and, until the first timer fires, the sync loop is calm. -/
structure Begun (s : NodeSettings) (begun : Moment) (a : Agent) : Prop where
  clock : begun ≤ a.clock
  watcher : a.watcher.Asks IsWatching (IsWatcher s)
  empty : a.told = false → a.lists.pending = []
  calm : a.told = false → a.clock < begun + s.syncFrequency.toNanos →
    Calm s begun (begun + s.syncFrequency.toNanos) a.loop

theorem begun_start (s : NodeSettings) (begun : Moment) : Begun s begun (start s begun) where
  clock := Nat.le_refl begun
  watcher := rfl
  empty _ := rfl
  calm _ _ := .between 0 {}

/-- **Whatever happens next keeps it.** The one step that could bring a list is the answer of the
store, which is still to come. -/
theorem Begun.step {s : NodeSettings} {begun : Moment} {a b : Agent} (h : Begun s begun a)
    (hstep : Step a b) : Begun s begun b := by
  cases hstep with
  | pass d =>
    refine ⟨Nat.le_add_right_of_le h.clock, h.watcher, h.empty, fun htold hdue => ?_⟩
    exact h.calm htold (Nat.lt_of_le_of_lt (Nat.le_add_right a.clock d) hdue)
  | watch hcall hanswer =>
    have hwatcher := h.watcher
    rw [hcall] at hwatcher
    refine ⟨h.clock, hwatcher.2 _, fun htold => ?_, fun htold => ?_⟩
    · obtain ⟨htold, hhandsOn⟩ := Bool.or_eq_false_iff.mp htold
      exact pending_of_answers hanswer hhandsOn (h.empty htold)
    · exact h.calm (Bool.or_eq_false_iff.mp htold).1
  | @watchOn p hdone =>
    have hwatcher := h.watcher
    rw [hdone] at hwatcher
    refine ⟨h.clock, ?_, h.empty, h.calm⟩
    cases p with
    | watcher s' feed stage =>
      obtain rfl : s' = s := hwatcher
      exact asks_watcher_round s' feed stage
    | syncLoop host s' feed handler stage => cases hwatcher
    | scan m => cases hwatcher
    | following m stage => cases hwatcher
  | watchEnd hdone => exact ⟨h.clock, h.watcher, h.empty, h.calm⟩
  | sync hcall hanswer =>
    refine ⟨h.clock, h.watcher, fun htold => ?_, fun htold hdue => ?_⟩
    · obtain ⟨htold, hhandsOn⟩ := Bool.or_eq_false_iff.mp htold
      exact pending_of_answers hanswer hhandsOn (h.empty htold)
    · have htold := (Bool.or_eq_false_iff.mp htold).1
      have hcalm := h.calm htold hdue
      rw [hcall] at hcalm
      exact hcalm.answered h.clock hdue (h.empty htold) hanswer
  | syncOn hdone =>
    refine ⟨h.clock, h.watcher, h.empty, fun htold hdue => ?_⟩
    have hcalm := h.calm htold hdue
    rw [hdone] at hcalm
    cases hcalm with
    | between feed stage => exact calm_syncLoop_round s begun feed stage

theorem Reachable.begun {s : NodeSettings} {begun : Moment} {a : Agent}
    (h : Reachable s begun a) : Begun s begun a := by
  induction h with
  | start => exact begun_start s begun
  | step _ hstep ih => exact ih.step hstep

theorem Begun.watcher_not_stopping {s : NodeSettings} {begun : Moment} {a : Agent}
    (h : Begun s begun a) : ¬ IsStopping a.watcher := by
  have hwatcher := h.watcher
  cases hprogram : a.watcher with
  | done p => exact id
  | call c next =>
    rw [hprogram] at hwatcher
    intro hstop
    cases c with
    | engine host c => exact hwatcher.1
    | _ => exact hstop

/-- **Nothing is stopped early.** Whatever the store and the engine answer, and however its programs
are interleaved, an agent stops nothing before a list has been handed on or the time of one round of
its sync loop is over. -/
theorem stops_late {s : NodeSettings} {begun : Moment} {a : Agent} (h : Reachable s begun a)
    (hstops : a.Stopping) :
    a.told = true ∨ begun + s.syncFrequency.toNanos ≤ a.clock := by
  rcases hstops with hwatcher | hloop
  · exact absurd hwatcher h.begun.watcher_not_stopping
  · cases htold : a.told with
    | true => exact .inl rfl
    | false =>
      refine .inr (Nat.le_of_not_lt fun hdue => ?_)
      exact (h.begun.calm htold hdue).not_isStopping hloop

/-! ### An outage at the start -/

/-- A running agent is about to stop a container if it says so to its engine. -/
theorem stopping_of_loop {a : Agent} {host id : String} {grace : Span}
    {next : Except Error Unit → WorldProgram (Option Process)}
    (h : a.loop = .call (.engine host (.stop id grace)) next) : a.Stopping := by
  refine .inr ?_
  rw [h]
  trivial

/-- **The bound is met.** With any settings, if the store fails when the watcher turns to it, the
agent is about to stop a running container as soon as the time of one round is over, though no list
has been handed on. -/
theorem outage_stops (s : NodeSettings) (begun : Moment) (c : Engine.Summary) :
    ∃ a, Reachable s begun a ∧ a.told = false ∧ a.clock = begun + s.syncFrequency.toNanos ∧
      ∃ next, a.loop = .call (.engine s.hostname (.stop c.id s.stopGracePeriod)) next := by
  have h : Reachable s begun _ := .start
  -- the watcher cannot subscribe, and waits
  have h := h.step (.watchOn rfl)
  have h := h.step (.watch (c := .store (.watch (Keys.manifests s.hostname) false))
    (r := Except.error (.store "unavailable")) rfl rfl)
  have h := h.step (.watch (c := .now) (r := begun) rfl ⟨rfl, rfl⟩)
  -- the sync loop waits for a list until its timer fires
  have h := h.step (.syncOn rfl)
  have h := h.step (.sync (c := .now) (r := begun) rfl ⟨rfl, rfl⟩)
  have h := h.step (.pass _ s.syncFrequency.toNanos)
  have h := h.step (.sync (c := .receiveList 0 (begun + s.syncFrequency.toNanos))
    (r := Received.nothing) rfl ⟨if_pos (Nat.le_refl _), rfl⟩)
  -- its pass for the empty list finds the container
  have h := h.step (.sync (c := .engine s.hostname .list) (r := Except.ok [c]) rfl rfl)
  exact ⟨_, h, rfl, rfl, _, rfl⟩

/-- The settings of one host, whose intervals are the usual ones. -/
def oneHost : NodeSettings := { hostname := "h1", etcdServers := ["http://127.0.0.1:2379"] }

theorem stops_late_outage :
    ∃ a, Reachable oneHost 0 a ∧ a.Stopping ∧
      (a.told = true ∨ 0 + oneHost.syncFrequency.toNanos ≤ a.clock) := by
  obtain ⟨a, hreachable, -, -, next, hstop⟩ := outage_stops oneHost 0 ⟨"a", "/web--m1--1"⟩
  have hstopping := stopping_of_loop hstop
  exact ⟨a, hreachable, hstopping, stops_late hreachable hstopping⟩

/-- **Something may be stopped untold.** Settings that are accepted do not keep an agent from
stopping containers before any list has been handed on. -/
theorem stops_untold :
    ¬ ∀ (s : NodeSettings) (begun : Moment) (a : Agent), s.validate = .ok () →
      Reachable s begun a → a.Stopping → a.told = true := by
  intro h
  obtain ⟨a, hreachable, huntold, -, next, hstop⟩ := outage_stops oneHost 0 ⟨"a", "/web--m1--1"⟩
  have htold := h oneHost 0 a rfl hreachable (stopping_of_loop hstop)
  rw [huntold] at htold
  cases htold

end Agent

end ControlPlane.Node
