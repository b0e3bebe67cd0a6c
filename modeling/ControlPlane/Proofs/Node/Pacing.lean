import ControlPlane.Proofs.Node.Syncing

/-!
# How far apart the passes of a sync loop are

The runs of `Syncing` let the clock go on at any moment, so they bound no distance from above: a
loop may be kept from running as long as one likes. Here the loop is never kept waiting. Time passes
only while a pass is being made, for as long as that takes, and while the loop waits for something
that is not there. A timer therefore fires at its very moment, and everything else takes no time.

Each exchange is recorded with the moments when it was asked and answered. A pass begins when it is
asked and ends when it is answered.

The settings call their period the upper bound between two passes, and it is one as long as lists
may come. But the timer is set in every round, and the round that finds the end of the source makes
no pass. After that the loop waits a whole period once more, however much of the last one had gone
by. `Pacing.end_restarts` is that run, for all settings and all moments of the end. What is true of
every run is said in `Pacing.passes_spaced`: the period is the bound except in the one wait in which
the end of the source is found, where it is counted again from that moment.

## Main definitions

* `Lets`: when time may pass
* `Pacing`, `Pacing.Step`, `Pacing.Reachable`: a sync loop that is never kept waiting, with the
  times of its exchanges
* `Pacing.InTime`: how long a loop may have been without a pass
* `Pacing.Spaced`: what is true of the times of its passes

## Main results

* `Pacing.passes_spaced`: no two passes are further apart than that, in any run
* `Pacing.end_restarts`: the end of the source makes the wait longer than a period
-/

namespace ControlPlane.Node

open Program Syncing

/-- An exchange with the moments when it was asked and answered. -/
structure Timed where
  exchange : Exchange loopCalls
  asked : Moment
  answered : Moment

/-- A sync loop at work that is never kept waiting. -/
structure Pacing extends Syncing where
  /-- When the loop came to the call that it is at. -/
  asked : Moment
  /-- The exchanges with their times, oldest first. -/
  times : List Timed

/-- Whether so much time may pass: as much as it takes while a pass is being made, and otherwise as
long as the call finds nothing. -/
def Lets (now : Moment) (lists : Feed (List Manifest)) (d : Nat) : LoopCall → Prop
  | .sync _ => True
  | c => ∀ earlier < d, ∀ r lists', ¬ Finds (now + earlier) lists c r lists'

namespace Pacing

/-- The loop and its source as they begin. -/
def start (capacity : Nat) (begun : Moment) : Pacing where
  toSyncing := Syncing.start capacity begun
  asked := begun
  times := []

/-- What may happen next. Time passes only as far as the call that is due lets it, which is what
makes the loop punctual. -/
inductive Step (s : NodeSettings) : Pacing → Pacing → Prop
  | pass {a : Pacing} {c : LoopCall} {next : c.Answer → Program loopCalls SyncLoop} (d : Nat) :
      a.loop = .call c next → Lets a.clock a.lists d c → Step s a { a with clock := a.clock + d }
  | send {a : Pacing} (list : List Manifest) {lists : Feed (List Manifest)} :
      a.lists.offer list = (.taken, lists) → Step s a { a with lists, sent := a.sent ++ [list] }
  | close (a : Pacing) : Step s a { a with lists := a.lists.detach }
  | answer {a : Pacing} {c : LoopCall} {next : c.Answer → Program loopCalls SyncLoop}
      {r : c.Answer} {lists : Feed (List Manifest)} :
      a.loop = .call c next → Finds a.clock a.lists c r lists →
      Step s a { a with
        lists, loop := next r, log := a.log ++ [⟨c, r⟩], looked := lookedAt a.clock a.looked c
        asked := a.clock, times := a.times ++ [⟨⟨c, r⟩, a.asked, a.clock⟩] }
  | turn {a : Pacing} {l : SyncLoop} : a.loop = .done l →
      Step s a { a with loop := l.round s, asked := a.clock }

/-- The states of a loop that began at a moment with a feed of some capacity. -/
inductive Reachable (s : NodeSettings) (capacity : Nat) (begun : Moment) : Pacing → Prop
  | start : Reachable s capacity begun (start capacity begun)
  | step {a b : Pacing} :
      Reachable s capacity begun a → Step s a b → Reachable s capacity begun b

section

variable {s : NodeSettings} {capacity : Nat} {begun : Moment} {a b : Pacing}

theorem Step.syncing (h : Step s a b) : Syncing.Step s a.toSyncing b.toSyncing := by
  cases h with
  | pass d hcall hlets => exact .pass a.toSyncing d
  | send list hoffer => exact .send list hoffer
  | close => exact .close a.toSyncing
  | answer hcall hfinds => exact .answer hcall hfinds
  | turn hdone => exact .turn hdone

/-- What is true of every run of a sync loop is true of those that are never kept waiting. -/
theorem Reachable.syncing (h : Reachable s capacity begun a) :
    Syncing.Reachable s capacity begun a.toSyncing := by
  induction h with
  | start => exact .start
  | step _ hstep ih => exact ih.step hstep.syncing

end

/-! ### Time passes -/

section Lets

variable {now limit : Moment} {lists : Feed (List Manifest)} {d : Nat}

/-- A look at the clock takes no time, since it is answered at any moment. -/
theorem eq_zero_of_lets {span : Span} (h : Lets now lists d (.ahead span)) : d = 0 := by
  refine Nat.eq_zero_of_not_pos fun hd => ?_
  exact h 0 hd (now + 0 + span.toNanos) lists ⟨rfl, rfl⟩

/-- A wait is not longer than its limit, at which it is answered in any case. -/
theorem le_of_lets {c : LoopCall} (h : Lets now lists d c) (hlimit : limit? c = some limit)
    (hnow : now ≤ limit) : now + d ≤ limit := by
  obtain ⟨earlier, rfl⟩ := Nat.exists_eq_add_of_le hnow
  refine Nat.add_le_add_left (Nat.le_of_not_lt fun hd => ?_) now
  cases c with
  | receive moment =>
    obtain rfl : moment = now + earlier := Option.some.inj hlimit
    exact h earlier hd .nothing lists (.inl ⟨rfl, Nat.le_refl _, rfl⟩)
  | waitUntil moment =>
    obtain rfl : moment = now + earlier := Option.some.inj hlimit
    exact h earlier hd () lists ⟨Nat.le_refl _, rfl⟩
  | ahead span => cases hlimit
  | sync list => cases hlimit

/-- While nothing has come and something may come, time passes up to the limit. -/
theorem lets_receive (hlive : lists.isLive = true) (hpending : lists.pending = [])
    (h : now + d ≤ limit) : Lets now lists d (.receive limit) := by
  rintro earlier hd r lists' (⟨-, hlimit, -⟩ | ⟨hfound, hreceive⟩)
  · exact absurd hlimit (Nat.not_le_of_lt (Nat.lt_of_lt_of_le (Nat.add_lt_add_left hd now) h))
  · rw [Feed.receive_of_empty hpending, if_pos hlive] at hreceive
    exact hfound (congrArg Prod.fst hreceive).symm

theorem lets_waitUntil (h : now + d ≤ limit) : Lets now lists d (.waitUntil limit) := by
  rintro earlier hd r lists' ⟨hlimit, -⟩
  exact absurd hlimit (Nat.not_le_of_lt (Nat.lt_of_lt_of_le (Nat.add_lt_add_left hd now) h))

end Lets

/-! ### How long the loop has been without a pass -/

/-- When the last pass ended; before any, when the loop began. -/
def rested (begun : Moment) (times : List Timed) : Moment :=
  times.foldl (fun moment t => if (passed t.exchange).isSome then t.answered else moment) begun

/-- The moments from which a loop may wait for its next pass: the end of the last one, or the moment
in its wait at which it found the end of the source. -/
inductive WaitsSince (s : NodeSettings) (begun : Moment) (times : List Timed) : Moment → Prop
  | rested : WaitsSince s begun times (rested begun times)
  | ended {past : List Timed} {t : Timed} {rest : List Timed} :
      times = past ++ t :: rest → ends t.exchange = true → (∀ t ∈ rest, passed t.exchange = none) →
      t.answered ≤ Pacing.rested begun times + s.syncFrequency.toNanos →
      WaitsSince s begun times t.answered

/-- At a moment the loop has not been without a pass for longer than a period since it waits. -/
def InTime (s : NodeSettings) (begun : Moment) (times : List Timed) (moment : Moment) : Prop :=
  ∃ since, WaitsSince s begun times since ∧ moment ≤ since + s.syncFrequency.toNanos

section Waiting

variable {s : NodeSettings} {begun since moment : Moment} {times : List Timed} {t : Timed}

theorem rested_concat :
    rested begun (times ++ [t]) =
      if (passed t.exchange).isSome then t.answered else rested begun times := by
  rw [rested, List.foldl_append]
  rfl

theorem rested_concat_of_not_passed (h : passed t.exchange = none) :
    rested begun (times ++ [t]) = rested begun times := by
  rw [rested_concat, h]
  rfl

/-- Without the end of the source the wait begins with the end of a pass. -/
theorem WaitsSince.eq_rested (h : WaitsSince s begun times since)
    (hopen : ∀ t ∈ times, ends t.exchange = false) : since = Pacing.rested begun times := by
  cases h with
  | rested => rfl
  | @ended past t rest hsplit hends hrest hle =>
    cases (hopen t (by rw [hsplit]; simp)).symm.trans hends

theorem WaitsSince.le (h : WaitsSince s begun times since) :
    since ≤ Pacing.rested begun times + s.syncFrequency.toNanos := by
  cases h with
  | rested => exact Nat.le_add_right _ _
  | ended _ _ _ hle => exact hle

/-- What is no pass leaves the wait as it is. -/
theorem WaitsSince.concat (h : WaitsSince s begun times since)
    (hpassed : passed t.exchange = none) : WaitsSince s begun (times ++ [t]) since := by
  have hrested : Pacing.rested begun (times ++ [t]) = Pacing.rested begun times :=
    rested_concat_of_not_passed hpassed
  cases h with
  | rested =>
    rw [← hrested]
    exact .rested
  | @ended past t' rest hsplit hends hrest hle =>
    refine @WaitsSince.ended s begun _ past t' (rest ++ [t]) ?_ hends ?_ (hrested ▸ hle)
    · rw [hsplit, List.append_assoc, List.cons_append]
    · exact List.forall_mem_append.mpr ⟨hrest, List.forall_mem_singleton.mpr hpassed⟩

/-- As long as the end of the source is not found, the period is the bound. -/
theorem InTime.le_of_open (h : InTime s begun times moment)
    (hopen : ∀ t ∈ times, ends t.exchange = false) :
    moment ≤ Pacing.rested begun times + s.syncFrequency.toNanos := by
  obtain ⟨since, hsince, hmoment⟩ := h
  rwa [hsince.eq_rested hopen] at hmoment

/-- Two periods are the bound in any case, also for the pass behind the end of the lists. -/
theorem InTime.le (h : InTime s begun times moment) :
    moment ≤ Pacing.rested begun times + 2 * s.syncFrequency.toNanos := by
  obtain ⟨since, hsince, hmoment⟩ := h
  calc moment ≤ since + s.syncFrequency.toNanos := hmoment
    _ ≤ Pacing.rested begun times + s.syncFrequency.toNanos + s.syncFrequency.toNanos :=
      Nat.add_le_add_right hsince.le _
    _ = Pacing.rested begun times + 2 * s.syncFrequency.toNanos := by
      rw [Nat.two_mul, Nat.add_assoc]

end Waiting

/-! ### What every run keeps -/

/-- How the clock, the moment at which the due call was asked and the last look at the clock stand
to the moment since which the loop waits, by the call that is due. -/
def OnTime (s : NodeSettings) (since clock asked looked : Moment) : LoopCall → Prop
  | .ahead _ => clock = since
  | .sync _ => asked ≤ since + s.syncFrequency.toNanos
  | _ => looked = since ∧ clock ≤ since + s.syncFrequency.toNanos

/-- What is true of a loop in every state. -/
structure Punctual (s : NodeSettings) (begun : Moment) (a : Pacing) : Prop where
  log : a.log = a.times.map Timed.exchange
  rested : rested begun a.times ≤ a.asked
  asked : a.asked ≤ a.clock
  onTime : ∃ since, WaitsSince s begun a.times since ∧
    OnTime s since a.clock a.asked a.looked (due s a.log)
  passes : ∀ past t rest, a.times = past ++ t :: rest → (passed t.exchange).isSome = true →
    Pacing.rested begun past ≤ t.asked ∧ InTime s begun past t.asked

variable {s : NodeSettings} {capacity : Nat} {begun since : Moment} {a b : Pacing} {c : LoopCall}

theorem punctual_start (capacity : Nat) (begun : Moment) :
    Punctual s begun (start capacity begun) where
  log := rfl
  rested := Nat.le_refl begun
  asked := Nat.le_refl begun
  onTime := ⟨begun, .rested, rfl⟩
  passes past t rest h := by cases past <;> cases h

/-- A call stays on time while time passes. -/
theorem OnTime.lets {clock asked looked : Moment} {lists : Feed (List Manifest)} {d : Nat}
    (h : OnTime s since clock asked looked c) (hlets : Lets clock lists d c)
    (hlimit : ∀ limit, limit? c = some limit → limit = looked + s.syncFrequency.toNanos) :
    OnTime s since (clock + d) asked looked c := by
  cases c with
  | ahead span =>
    obtain rfl : d = 0 := eq_zero_of_lets hlets
    exact h
  | receive limit =>
    obtain ⟨rfl, hclock⟩ : looked = since ∧ clock ≤ since + s.syncFrequency.toNanos := h
    rw [← hlimit limit rfl] at hclock
    exact ⟨rfl, hlimit limit rfl ▸ le_of_lets hlets rfl hclock⟩
  | waitUntil limit =>
    obtain ⟨rfl, hclock⟩ : looked = since ∧ clock ≤ since + s.syncFrequency.toNanos := h
    rw [← hlimit limit rfl] at hclock
    exact ⟨rfl, hlimit limit rfl ▸ le_of_lets hlets rfl hclock⟩
  | sync list => exact h

theorem Punctual.forall_ends (h : Punctual s begun a) (hclosed : closed a.log = false) :
    ∀ t ∈ a.times, ends t.exchange = false := by
  rw [h.log, closed, List.any_map] at hclosed
  exact fun t ht => Bool.eq_false_iff.mpr (List.any_eq_false.mp hclosed t ht)

/-- **After an answer the next call is on time.** -/
theorem Punctual.onTime_answered (h : Punctual s begun a) {r : c.Answer} (hdue : c = due s a.log) :
    ∃ since, WaitsSince s begun (a.times ++ [⟨⟨c, r⟩, a.asked, a.clock⟩]) since ∧
      OnTime s since a.clock a.clock (lookedAt a.clock a.looked c) (due s (a.log ++ [⟨c, r⟩])) := by
  obtain ⟨since, hsince, honTime⟩ := h.onTime
  rw [← hdue] at honTime
  cases c with
  | ahead span =>
    obtain rfl : a.clock = since := honTime
    refine ⟨a.clock, hsince.concat rfl, ?_⟩
    rw [due_concat_ahead (s := s) a.log span r]
    split
    · exact ⟨rfl, Nat.le_add_right _ _⟩
    · exact ⟨rfl, Nat.le_add_right _ _⟩
  | receive limit =>
    cases r with
    | item list =>
      refine ⟨since, hsince.concat rfl, ?_⟩
      rw [due_concat_item]
      exact honTime.2
    | nothing =>
      refine ⟨since, hsince.concat rfl, ?_⟩
      rw [due_concat_nothing]
      exact honTime.2
    | ended =>
      -- the timer is set anew, so the loop waits since the moment at which the end is found
      have hopen := h.forall_ends (closed_of_due hdue.symm)
      have hrested : since =
          Pacing.rested begun (a.times ++ [⟨⟨.receive limit, .ended⟩, a.asked, a.clock⟩]) :=
        (hsince.eq_rested hopen).trans (rested_concat_of_not_passed rfl).symm
      refine ⟨a.clock, .ended rfl rfl (List.forall_mem_nil _) (hrested ▸ honTime.2), ?_⟩
      rw [due_concat_ended]
      rfl
  | waitUntil moment =>
    refine ⟨since, hsince.concat rfl, ?_⟩
    rw [due_concat_waitUntil (r := r)]
    exact honTime.2
  | sync list =>
    refine ⟨_, .rested, ?_⟩
    rw [due_concat_sync (r := r), rested_concat]
    rfl

/-- A pass that is due was asked in time. -/
theorem Punctual.in_time_of_sync (h : Punctual s begun a) {list : List Manifest}
    (hdue : due s a.log = .sync list) : InTime s begun a.times a.asked := by
  obtain ⟨since, hsince, honTime⟩ := h.onTime
  rw [hdue] at honTime
  exact ⟨since, hsince, honTime⟩

/-- **Whatever happens next keeps it.** Time passes as far as the call that is due lets it, and an
answer makes another call due. -/
theorem Punctual.step (h : Punctual s begun a) (hlawful : Lawful s a.toSyncing)
    (hstep : Step s a b) : Punctual s begun b := by
  have hheeds := hlawful.heeds
  cases hstep with
  | pass d hcall hlets =>
    rw [hcall] at hheeds
    obtain ⟨since, hsince, honTime⟩ := h.onTime
    refine { h with asked := Nat.le_add_right_of_le h.asked, onTime := ⟨since, hsince, ?_⟩ }
    exact honTime.lets (hheeds.1 ▸ hlets) hlawful.limit
  | send list hoffer => exact { h with }
  | close => exact { h with }
  | @answer c next r lists hcall hfinds =>
    rw [hcall] at hheeds
    have hdue : c = due s a.log := hheeds.1
    refine ⟨?_, ?_, Nat.le_refl a.clock, h.onTime_answered hdue, ?_⟩
    · rw [List.map_append, ← h.log]
      rfl
    · change Pacing.rested begun (a.times ++ [⟨⟨c, r⟩, a.asked, a.clock⟩]) ≤ a.clock
      rw [rested_concat]
      split
      · exact Nat.le_refl a.clock
      · exact Nat.le_trans h.rested h.asked
    · refine forall_split_concat.mpr ⟨h.passes, fun hpassed => ⟨h.rested, ?_⟩⟩
      cases c with
      | sync list => exact h.in_time_of_sync hdue.symm
      | _ => cases hpassed
  | turn hdone =>
    rw [hdone] at hheeds
    have hdue : due s a.log = .ahead s.syncFrequency := hheeds.2
    obtain ⟨since, hsince, honTime⟩ := h.onTime
    rw [hdue] at honTime
    refine { h with
      rested := Nat.le_trans h.rested h.asked
      asked := Nat.le_refl _
      onTime := ⟨since, hsince, ?_⟩ }
    rw [hdue]
    exact honTime

theorem Reachable.punctual (h : Reachable s capacity begun a) : Punctual s begun a := by
  induction h with
  | start => exact punctual_start capacity begun
  | step hrun hstep ih => exact ih.step hrun.syncing.lawful hstep

/-! ### The distance between passes -/

/-- What is true of the times of a loop. -/
structure Spaced (s : NodeSettings) (begun : Moment) (a : Pacing) : Prop where
  /-- The times are those of all exchanges. -/
  log : a.log = a.times.map Timed.exchange
  /-- A pass begins after the end of the one before it, or after the start of the loop, and in
  time. -/
  passes : ∀ past t rest, a.times = past ++ t :: rest → (passed t.exchange).isSome = true →
    rested begun past ≤ t.asked ∧ InTime s begun past t.asked
  /-- Between the two there are at most two periods, and one as long as the end of the source has
  not been found. -/
  bounds : ∀ past t rest, a.times = past ++ t :: rest → (passed t.exchange).isSome = true →
    t.asked ≤ rested begun past + 2 * s.syncFrequency.toNanos ∧
      ((∀ t ∈ past, ends t.exchange = false) →
        t.asked ≤ rested begun past + s.syncFrequency.toNanos)
  /-- The pass that is being made began in time as well. -/
  passing : ∀ list next, a.loop = .call (.sync list) next →
    rested begun a.times ≤ a.asked ∧ InTime s begun a.times a.asked
  /-- No pass is put off: while none is being made, the time for the next is not over. -/
  waiting : (∀ list next, a.loop ≠ .call (.sync list) next) → InTime s begun a.times a.clock
  /-- There is one wait at most in which the end of the source is found. -/
  once : ∀ past t rest, a.times = past ++ t :: rest → ends t.exchange = true →
    ∀ t ∈ rest, ends t.exchange = false

theorem Punctual.in_time_of_ne_sync (h : Punctual s begun a)
    (hdue : ∀ list, due s a.log ≠ .sync list) : InTime s begun a.times a.clock := by
  obtain ⟨since, hsince, honTime⟩ := h.onTime
  refine ⟨since, hsince, ?_⟩
  cases hcall : due s a.log with
  | ahead span =>
    rw [hcall] at honTime
    have hclock : a.clock = since := honTime
    exact hclock ▸ Nat.le_add_right _ _
  | receive limit =>
    rw [hcall] at honTime
    exact honTime.2
  | waitUntil moment =>
    rw [hcall] at honTime
    exact honTime.2
  | sync list => exact absurd hcall (hdue list)

/-- After the end of the source was found it is not found again. -/
theorem Punctual.not_ends_again (h : Punctual s begun a) (hlawful : Lawful s a.toSyncing)
    {past rest : List Timed} {t t' : Timed} (hsplit : a.times = past ++ t :: rest)
    (hends : ends t.exchange = true) (ht' : t' ∈ rest) : ends t'.exchange = false := by
  refine Bool.eq_false_iff.mpr fun hends' => ?_
  unfold ends at hends hends'
  split at hends
  · next limit hexchange =>
    split at hends'
    · next limit' hexchange' =>
      have hlog : a.log = past.map Timed.exchange ++
          ⟨.receive limit, .ended⟩ :: rest.map Timed.exchange := by
        rw [h.log, hsplit, List.map_append, List.map_cons, hexchange]
      refine hlawful.call_ne_receive hlog (List.mem_map_of_mem ht') limit' ?_
      rw [hexchange']
    · cases hends'
  · cases hends

/-- **Passes are no further apart than a period,** except in the wait in which the end of the source
is found: there the period is counted again from that moment. -/
theorem passes_spaced (hrun : Reachable s capacity begun a) : Spaced s begun a := by
  have h := hrun.punctual
  have hlawful := hrun.syncing.lawful
  have hheeds := hlawful.heeds
  refine {
    log := h.log
    passes := h.passes
    bounds := fun past t rest hsplit hpassed => by
      have hin := (h.passes past t rest hsplit hpassed).2
      exact ⟨hin.le, hin.le_of_open⟩
    passing := fun list next hloop => ?_
    waiting := fun hloop => h.in_time_of_ne_sync fun list hdue => ?_
    once := fun past t rest hsplit hends t' ht' => h.not_ends_again hlawful hsplit hends ht' }
  · rw [hloop] at hheeds
    exact ⟨h.rested, h.in_time_of_sync hheeds.1.symm⟩
  · cases hprogram : a.loop with
    | done l =>
      rw [hprogram] at hheeds
      cases hdue.symm.trans hheeds.2
    | call c next =>
      rw [hprogram] at hheeds
      obtain rfl : c = .sync list := hheeds.1.trans hdue
      exact hloop list next hprogram

/-! ### The end of the source -/

/-- **The end of the source sets the timer anew.** With any settings, if the source ends in the
first wait of a loop, the first pass begins a whole period after that. -/
theorem end_restarts (s : NodeSettings) (capacity : Nat) (begun : Moment) {d : Nat}
    (hd : d ≤ s.syncFrequency.toNanos) :
    ∃ a past t, Reachable s capacity begun a ∧ a.times = past ++ [t] ∧
      (passed t.exchange).isSome = true ∧ rested begun past = begun ∧
      t.asked = begun + d + s.syncFrequency.toNanos := by
  have h : Reachable s capacity begun _ := .start
  have h := h.step (.turn rfl)
  have h := h.step (.answer (c := .ahead s.syncFrequency)
    (r := begun + s.syncFrequency.toNanos) rfl ⟨rfl, rfl⟩)
  have h := h.step (.pass (c := .receive (begun + s.syncFrequency.toNanos)) d rfl
    (lets_receive rfl rfl (Nat.add_le_add_left hd begun)))
  have h := h.step (.close _)
  have h := h.step (.answer (c := .receive (begun + s.syncFrequency.toNanos))
    (r := .ended) rfl (.inr ⟨nofun, rfl⟩))
  -- the next round looks at the clock again, and waits from there
  have h := h.step (.turn rfl)
  have h := h.step (.answer (c := .ahead s.syncFrequency)
    (r := begun + d + s.syncFrequency.toNanos) rfl ⟨rfl, rfl⟩)
  have h := h.step (.pass (c := .waitUntil (begun + d + s.syncFrequency.toNanos))
    s.syncFrequency.toNanos rfl (lets_waitUntil (Nat.le_refl _)))
  have h := h.step (.answer (c := .waitUntil (begun + d + s.syncFrequency.toNanos)) (r := ()) rfl
    ⟨Nat.le_refl _, rfl⟩)
  have h := h.step (.answer (c := .sync []) (r := Except.ok ()) rfl rfl)
  exact ⟨_, _, _, h, rfl, rfl, rfl, rfl⟩

/-- Nine seconds of ten are over when the source ends, and the first pass is in time ten seconds
later. -/
theorem passes_spaced_ended :
    ∃ a past t, Reachable settings 1 0 a ∧ a.times = past ++ [t] ∧
      (passed t.exchange).isSome = true ∧ t.asked = 19000000000 ∧ Spaced settings 0 a := by
  obtain ⟨a, past, t, hrun, htimes, hpassed, -, hasked⟩ :=
    end_restarts settings 1 0 (d := 9000000000) (by decide)
  exact ⟨a, past, t, hrun, htimes, hpassed, hasked, passes_spaced hrun⟩

/-- **The period is no bound.** Settings that are accepted do not keep passes from being further
apart than their period. -/
theorem period_exceeded :
    ¬ ∀ (s : NodeSettings) (capacity : Nat) (begun : Moment) (a : Pacing), s.validate = .ok () →
      Reachable s capacity begun a → ∀ past t rest, a.times = past ++ t :: rest →
        (passed t.exchange).isSome = true →
        t.asked ≤ rested begun past + s.syncFrequency.toNanos := by
  intro h
  obtain ⟨a, past, t, hrun, htimes, hpassed, hrested, hasked⟩ :=
    end_restarts settings 1 0 (d := 9000000000) (by decide)
  have hle := h settings 1 0 a rfl hrun past t [] htimes hpassed
  rw [hrested, hasked] at hle
  exact absurd hle (by decide)

end Pacing

end ControlPlane.Node
