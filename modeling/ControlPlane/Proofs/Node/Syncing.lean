import ControlPlane.Node.SyncLoop
import ControlPlane.Proofs.Program.Exchanges
import ControlPlane.Proofs.Feed
import Mathlib.Data.List.Induction

/-!
# Which lists a sync loop makes passes for

A sync loop never ends, so what it does is said of its log: of all calls it has made and what they
were answered. Around it the clock goes on at any moment, a source hands lists on into a feed and
lets go of it at some moment, and a pass takes as long as it takes and comes to anything. A wait for
a list may end with the timer although a list has come, because neither is preferred when both are
ready.

The loop is looked at through `due`: after every log exactly one call is due, and nothing in it
depends on how a pass ended. `heeds_round` opens the loop once to see that its rounds make the calls
that are due and no others. The rest is about logs of such calls.

No fairness is asked of the clock or the source. That passes go on is therefore said in two parts:
among any five exchanges there is a pass, and once the time of a round is over the loop waits for
nobody.

## Main definitions

* `Syncing`, `Syncing.Step`, `Syncing.Reachable`: a sync loop with its source and its clock
* `Syncing.latest`, `Syncing.received`, `Syncing.prompted`: what a log says of lists and passes
* `Syncing.due`: the call that is due after a log
* `Syncing.Faithful`: what the passes have to do with the lists

## Main results

* `Syncing.heeds_round`: a round makes the calls that are due
* `Syncing.Lawful.step`, `Syncing.Reachable.lawful`: what every run keeps
* `Syncing.passes_faithful`: no list is skipped and none is invented, in any run
-/

namespace ControlPlane.Node

open Program

/-- The exchanges of a sync loop, oldest first. -/
abbrev LoopLog := List (Exchange loopCalls)

/-- A sync loop at work, between two calls or in the middle of one, and what it turns to. -/
structure Syncing where
  clock : Moment
  /-- The feed from the source. -/
  lists : Feed (List Manifest)
  loop : Program loopCalls SyncLoop
  /-- The lists that the source has handed on, oldest first. -/
  sent : List (List Manifest)
  log : LoopLog
  /-- When the loop last looked at the clock, as it does when a round begins. -/
  looked : Moment

namespace Syncing

/-- What a call may be answered at a moment, and what becomes of the feed. -/
def Finds (now : Moment) (lists : Feed (List Manifest)) :
    (c : LoopCall) → c.Answer → Feed (List Manifest) → Prop
  | .ahead d, moment, lists' => moment = now + d.toNanos ∧ lists' = lists
  | .receive limit, found, lists' =>
    (found = .nothing ∧ limit ≤ now ∧ lists' = lists) ∨
      (found ≠ .nothing ∧ lists.receive = (found, lists'))
  | .waitUntil moment, _, lists' => moment ≤ now ∧ lists' = lists
  | .sync _, _, lists' => lists' = lists

/-- When the clock was last looked at, after a call was answered. -/
def lookedAt (now looked : Moment) : LoopCall → Moment
  | .ahead _ => now
  | _ => looked

/-- The loop and its source as they begin, with nothing in the feed. -/
def start (capacity : Nat) (begun : Moment) : Syncing where
  clock := begun
  lists := { capacity }
  loop := .done {}
  sent := []
  log := []
  looked := begun

/-- What may happen next. Time may pass at any moment and without bound, so what is shown holds of a
slow loop too. -/
inductive Step (s : NodeSettings) : Syncing → Syncing → Prop
  | pass (a : Syncing) (d : Nat) : Step s a { a with clock := a.clock + d }
  | send {a : Syncing} (list : List Manifest) {lists : Feed (List Manifest)} :
      a.lists.offer list = (.taken, lists) → Step s a { a with lists, sent := a.sent ++ [list] }
  | close (a : Syncing) : Step s a { a with lists := a.lists.detach }
  | answer {a : Syncing} {c : LoopCall} {next : c.Answer → Program loopCalls SyncLoop}
      {r : c.Answer} {lists : Feed (List Manifest)} :
      a.loop = .call c next → Finds a.clock a.lists c r lists →
      Step s a { a with
        lists, loop := next r, log := a.log ++ [⟨c, r⟩], looked := lookedAt a.clock a.looked c }
  | turn {a : Syncing} {l : SyncLoop} : a.loop = .done l → Step s a { a with loop := l.round s }

/-- The states of a loop that began at a moment with a feed of some capacity. -/
inductive Reachable (s : NodeSettings) (capacity : Nat) (begun : Moment) : Syncing → Prop
  | start : Reachable s capacity begun (start capacity begun)
  | step {a b : Syncing} :
      Reachable s capacity begun a → Step s a b → Reachable s capacity begun b

/-! ### Reading a log -/

/-- The list that came, if the exchange brought one. -/
def heard : Exchange loopCalls → Option (List Manifest)
  | ⟨.receive _, .item list⟩ => some list
  | _ => none

/-- The list that a pass was made for, however it ended. -/
def passed : Exchange loopCalls → Option (List Manifest)
  | ⟨.sync list, _⟩ => some list
  | _ => none

/-- Whether the timer fired: the wait for a list is over without one, or the wait for the moment is.
-/
def fires : Exchange loopCalls → Bool
  | ⟨.receive _, .nothing⟩ => true
  | ⟨.waitUntil _, _⟩ => true
  | _ => false

/-- Whether it was found that no list can come any more. -/
def ends : Exchange loopCalls → Bool
  | ⟨.receive _, .ended⟩ => true
  | _ => false

/-- The lists that came, in order. -/
def received (log : LoopLog) : List (List Manifest) := log.filterMap heard

/-- The list that came last, the empty one before any. -/
def latest (log : LoopLog) : List Manifest := (received log).getLast?.getD []

/-- Whether it is known that no list can come any more. -/
def closed (log : LoopLog) : Bool := log.any ends

/-- Whether the timer has just fired. -/
def fired (log : LoopLog) : Bool := log.getLast?.elim false fires

/-- The list that has just come. The pass for it is still to be made. -/
def owed (log : LoopLog) : List (List Manifest) := (log.getLast?.bind heard).toList

/-- The lists of the passes without those that the timer started, given whether it had just
fired. -/
def prompted : Bool → LoopLog → List (List Manifest)
  | _, [] => []
  | true, e :: log => prompted (fires e) log
  | false, e :: log => (passed e).toList ++ prompted (fires e) log

/-- The call that is due after a log. Only the last exchange decides, except that a loop which was
told of the end no longer waits for lists. -/
def due (s : NodeSettings) (log : LoopLog) : LoopCall :=
  match log.getLast? with
  | some ⟨.ahead _, limit⟩ => if closed log then .waitUntil limit else .receive limit
  | some ⟨.receive _, .ended⟩ => .ahead s.syncFrequency
  | some ⟨.receive _, _⟩ => .sync (latest log)
  | some ⟨.waitUntil _, _⟩ => .sync (latest log)
  | _ => .ahead s.syncFrequency

section Reading

variable {log : LoopLog} {e : Exchange loopCalls}

theorem received_concat : received (log ++ [e]) = received log ++ (heard e).toList := by
  rw [received, List.filterMap_append]
  cases h : heard e <;> simp [received, h]

theorem latest_concat_item {limit : Moment} {list : List Manifest} :
    latest (log ++ [⟨.receive limit, .item list⟩]) = list := by
  rw [latest, received_concat]
  exact congrArg (Option.getD · []) List.getLast?_concat

theorem latest_concat_of_heard (h : heard e = none) : latest (log ++ [e]) = latest log := by
  rw [latest, received_concat, h, Option.toList_none, List.append_nil, latest]

theorem closed_concat : closed (log ++ [e]) = (closed log || ends e) := by
  simp [closed]

theorem fired_concat : fired (log ++ [e]) = fires e := by
  simp [fired]

theorem owed_concat : owed (log ++ [e]) = (heard e).toList := by
  simp [owed]

/-- A pass counts unless the timer has just fired. -/
theorem prompted_concat (before : Bool) :
    prompted before (log ++ [e]) = prompted before log ++
      if (log.getLast?.elim before fires) then [] else (passed e).toList := by
  induction log generalizing before with
  | nil => cases before <;> simp [prompted]
  | cons head log ih =>
    have hlast : (head :: log).getLast?.elim before fires
        = log.getLast?.elim (fires head) fires := by
      cases log with
      | nil => rfl
      | cons second log => rw [List.getLast?_cons_cons]; rfl
    cases before <;> simp [prompted, ih, hlast, List.append_assoc]

variable {s : NodeSettings}

theorem due_concat_ahead (log : LoopLog) (d : Span) (limit : Moment) :
    due s (log ++ [⟨.ahead d, limit⟩]) =
      if closed log then .waitUntil limit else .receive limit := by
  simp [due, closed_concat, ends]

theorem due_concat_item {limit : Moment} {list : List Manifest} :
    due s (log ++ [⟨.receive limit, .item list⟩])
      = .sync (latest (log ++ [⟨.receive limit, .item list⟩])) := by
  simp [due]

theorem due_concat_nothing {limit : Moment} :
    due s (log ++ [⟨.receive limit, .nothing⟩])
      = .sync (latest (log ++ [⟨.receive limit, .nothing⟩])) := by
  simp [due]

theorem due_concat_ended {limit : Moment} :
    due s (log ++ [⟨.receive limit, .ended⟩]) = .ahead s.syncFrequency := by
  simp [due]

theorem due_concat_waitUntil {limit : Moment} {r : Unit} :
    due s (log ++ [⟨.waitUntil limit, r⟩])
      = .sync (latest (log ++ [⟨.waitUntil limit, r⟩])) := by
  simp [due]

theorem due_concat_sync {list : List Manifest} {r : Except Error Unit} :
    due s (log ++ [⟨.sync list, r⟩]) = .ahead s.syncFrequency := by
  simp [due]

theorem latest_of_due {list : List Manifest} (h : due s log = .sync list) : list = latest log := by
  unfold due at h
  split at h
  · split at h <;> cases h
  all_goals cases h
  all_goals rfl

theorem closed_of_due {limit : Moment} (h : due s log = .receive limit) : closed log = false := by
  unfold due at h
  split at h
  · cases hclosed : closed log with
    | true => rw [hclosed] at h; cases h
    | false => rfl
  all_goals cases h

theorem span_of_due {d : Span} (h : due s log = .ahead d) : d = s.syncFrequency := by
  unfold due at h
  split at h
  · split at h <;> cases h
  all_goals cases h
  all_goals rfl

/-- A list that has just come is given to the next pass. -/
theorem owed_of_due (h : ∀ list, due s log ≠ .sync list) : owed log = [] := by
  cases hheard : log.getLast?.bind heard with
  | none => rw [owed, hheard, Option.toList_none]
  | some list =>
    obtain ⟨e, hlast, he⟩ := Option.bind_eq_some_iff.mp hheard
    unfold heard at he
    split at he
    · exact absurd (by rw [due, hlast]) (h (latest log))
    · cases he

/-- A pass is for the list that has just come, or the timer has just fired. -/
theorem owed_or_fired {list : List Manifest} (h : due s log = .sync list) :
    owed log = [list] ∧ fired log = false ∨ owed log = [] ∧ fired log = true := by
  rcases List.eq_nil_or_concat log with rfl | ⟨past, ⟨c, r⟩, rfl⟩
  · cases h
  · rw [List.concat_eq_append] at h ⊢
    rw [owed_concat, fired_concat]
    cases c with
    | receive limit =>
      cases r with
      | item list' =>
        have hlist := latest_of_due h
        rw [latest_concat_item] at hlist
        exact .inl ⟨congrArg ([·]) hlist.symm, rfl⟩
      | nothing => exact .inr ⟨rfl, rfl⟩
      | ended => cases due_concat_ended.symm.trans h
    | waitUntil moment => exact .inr ⟨rfl, rfl⟩
    | ahead d =>
      have hlooked := (due_concat_ahead _ _ _).symm.trans h
      split at hlooked <;> cases hlooked
    | sync list' => cases due_concat_sync.symm.trans h

end Reading

/-! ### One round -/

/-- What the loop holds after a log. -/
def held (log : LoopLog) : SyncLoop := ⟨latest log, !closed log⟩

/-- Where the loop is between two rounds: it is to look at the clock. -/
def Between (s : NodeSettings) (l : SyncLoop) (log : LoopLog) : Prop :=
  l = held log ∧ due s log = .ahead s.syncFrequency

section Round

variable {s : NodeSettings} {l : SyncLoop} {log : LoopLog} {e : Exchange loopCalls}

theorem held_concat_item {limit : Moment} {list : List Manifest} :
    held (log ++ [⟨.receive limit, .item list⟩]) = { held log with current := list } := by
  simp [held, latest_concat_item, closed_concat, ends]

theorem held_concat_ended {limit : Moment} :
    held (log ++ [⟨.receive limit, .ended⟩]) = { held log with more := false } := by
  simp only [held, closed_concat, ends, Bool.or_true, Bool.not_true]
  rw [latest_concat_of_heard rfl]

/-- Other exchanges do not change what the loop holds. -/
theorem held_concat (hheard : heard e = none) (hends : ends e = false) :
    held (log ++ [e]) = held log := by
  rw [held, latest_concat_of_heard hheard, closed_concat, hends, Bool.or_false, held]

/-- A pass for the latest list ends a round. -/
theorem heeds_sync (hl : l = held log) (hdue : due s log = .sync (latest log)) :
    l.sync.Heeds (due s) (Between s) log := by
  subst hl
  exact ⟨hdue.symm, fun _ => ⟨(held_concat rfl rfl).symm, due_concat_sync⟩⟩

/-- **A round makes the calls that are due,** and ends where the next one begins. -/
theorem heeds_round (h : Between s l log) : (l.round s).Heeds (due s) (Between s) log := by
  obtain ⟨rfl, hdue⟩ := h
  refine ⟨hdue.symm, fun limit => ?_⟩
  have hnext := due_concat_ahead (s := s) log s.syncFrequency limit
  have hlooked : held (log ++ [⟨.ahead s.syncFrequency, limit⟩]) = held log := held_concat rfl rfl
  cases hclosed : closed log with
  | true =>
    have hmore : (held log).more = false := congrArg (! ·) hclosed
    rw [hmore]
    refine ⟨(hnext.trans (if_pos hclosed)).symm, fun _ => heeds_sync ?_ due_concat_waitUntil⟩
    exact hlooked.symm.trans (held_concat rfl rfl).symm
  | false =>
    have hmore : (held log).more = true := congrArg (! ·) hclosed
    have hopen : ¬ closed log = true := Bool.eq_false_iff.mp hclosed
    simp only [if_pos hmore]
    refine ⟨(hnext.trans (if_neg hopen)).symm, fun found => ?_⟩
    cases found with
    | item list =>
      refine heeds_sync ?_ due_concat_item
      exact (held_concat_item.trans (congrArg ({ · with current := list }) hlooked)).symm
    | nothing => exact heeds_sync (hlooked.symm.trans (held_concat rfl rfl).symm) due_concat_nothing
    | ended =>
      refine ⟨?_, due_concat_ended⟩
      exact (held_concat_ended.trans (congrArg ({ · with more := false }) hlooked)).symm

end Round

/-! ### Logs of calls that were due -/

section Logs

variable {s : NodeSettings} {log : LoopLog}

/-- **The passes in order.** Those that the timer did not start are for the lists that came, and the
list that has just come is still to be passed on. -/
theorem received_eq_prompted (h : AsDue (due s) log) :
    received log = prompted false log ++ owed log := by
  induction log using List.reverseRecOn with
  | nil => rfl
  | append_singleton log e ih =>
    obtain ⟨hlog, hdue⟩ := asDue_concat.mp h
    have hnone (hsync : ∀ list, e.call ≠ .sync list) : owed log = [] :=
      owed_of_due fun list => hdue ▸ hsync list
    rw [received_concat, owed_concat, prompted_concat, ih hlog, List.append_assoc,
      List.append_assoc]
    refine congrArg (prompted false log ++ ·) ?_
    change owed log ++ _ = (if fired log then [] else _) ++ _
    obtain ⟨c, r⟩ := e
    cases c with
    | sync list =>
      rcases owed_or_fired hdue.symm with ⟨howed, hfired⟩ | ⟨howed, hfired⟩
      · rw [howed, hfired]; rfl
      · rw [howed, hfired]; rfl
    | ahead d => rw [hnone nofun]; cases fired log <;> rfl
    | receive limit => rw [hnone nofun]; cases fired log <;> rfl
    | waitUntil moment => rw [hnone nofun]; cases fired log <;> rfl

/-- How many exchanges there are at most before the next pass, from the call that is due. Only the
exchange that finds the end of the source leads to a further round without a pass. -/
def toPass (closed : Bool) : LoopCall → Nat
  | .ahead _ => if closed then 2 else 4
  | .receive _ => 3
  | .waitUntil _ => 1
  | .sync _ => 0

/-- An exchange is a pass or brings the next pass nearer. -/
theorem toPass_concat {e : Exchange loopCalls} (hdue : e.call = due s log)
    (hpassed : passed e = none) :
    toPass (closed (log ++ [e])) (due s (log ++ [e])) < toPass (closed log) (due s log) := by
  obtain ⟨c, r⟩ := e
  rw [← hdue]
  cases c with
  | ahead d =>
    have hclosed : closed (log ++ [⟨.ahead d, r⟩]) = closed log :=
      closed_concat.trans (Bool.or_false _)
    have hnext := due_concat_ahead (s := s) log d r
    rw [hclosed]
    cases hlog : closed log with
    | true =>
      rw [hnext.trans (if_pos hlog)]
      exact Nat.lt_succ_self 1
    | false =>
      rw [hnext.trans (if_neg (Bool.eq_false_iff.mp hlog))]
      exact Nat.lt_succ_self 3
  | receive limit =>
    cases r with
    | item list => rw [due_concat_item]; exact Nat.zero_lt_succ 2
    | nothing => rw [due_concat_nothing]; exact Nat.zero_lt_succ 2
    | ended =>
      have hclosed : closed (log ++ [⟨.receive limit, .ended⟩]) = true :=
        closed_concat.trans (Bool.or_true _)
      rw [due_concat_ended, hclosed]
      exact Nat.lt_succ_self 2
  | waitUntil moment => rw [due_concat_waitUntil (r := r)]; exact Nat.zero_lt_succ 0
  | sync list => cases hpassed

/-- Exchanges without a pass are few: each of them brings the next pass nearer. -/
theorem length_add_toPass_le {past window : LoopLog} (h : AsDue (due s) (past ++ window))
    (hwindow : window.filterMap passed = []) :
    window.length + toPass (closed (past ++ window)) (due s (past ++ window))
      ≤ toPass (closed past) (due s past) := by
  induction window using List.reverseRecOn with
  | nil => simp
  | append_singleton window e ih =>
    rw [← List.append_assoc] at h ⊢
    rw [List.filterMap_append, List.append_eq_nil_iff] at hwindow
    obtain ⟨hlog, hdue⟩ := asDue_concat.mp h
    have hless := toPass_concat hdue (List.filterMap_eq_nil_iff.mp hwindow.2 e (by simp))
    have hrest := ih hlog hwindow.1
    rw [List.length_append, List.length_singleton]
    omega

theorem toPass_le (closed : Bool) (c : LoopCall) : toPass closed c ≤ 4 := by
  cases c <;> cases closed <;> simp [toPass]

/-- After the end of the source is known, no list is waited for. -/
theorem toPass_le_of_due (h : closed log = true) : toPass (closed log) (due s log) ≤ 2 := by
  rw [h]
  cases hdue : due s log with
  | receive limit => cases h.symm.trans (closed_of_due hdue)
  | ahead d => exact Nat.le_refl 2
  | waitUntil moment => exact Nat.le_succ 1
  | sync list => exact Nat.zero_le 2

end Logs

/-! ### What every run keeps -/

/-- Until when a call may take. -/
def limit? : LoopCall → Option Moment
  | .receive limit => some limit
  | .waitUntil limit => some limit
  | _ => none

/-- How a pass ended is not looked at: whatever is answered, the same work is left. -/
def Indifferent : Program loopCalls SyncLoop → Prop
  | .done _ => True
  | .call (.sync _) next => (∀ r r', next r = next r') ∧ ∀ r, Indifferent (next r)
  | .call _ next => ∀ r, Indifferent (next r)

/-- What is true of a loop and its source in every state. -/
structure Lawful (s : NodeSettings) (a : Syncing) : Prop where
  heeds : a.loop.Heeds (due s) (Between s) a.log
  indifferent : Indifferent a.loop
  asDue : AsDue (due s) a.log
  sent : a.sent = received a.log ++ a.lists.pending
  drained : closed a.log = true → a.lists.isLive = false ∧ a.lists.pending = []
  looked : a.looked ≤ a.clock
  limit : ∀ limit, limit? (due s a.log) = some limit →
    limit = a.looked + s.syncFrequency.toNanos
  timed : fired a.log = true → a.looked + s.syncFrequency.toNanos ≤ a.clock

variable {s : NodeSettings} {a b : Syncing}

theorem indifferent_round (l : SyncLoop) : Indifferent (l.round s) := by
  rcases l with ⟨current, _ | _⟩
  · exact fun _ _ => ⟨fun _ _ => rfl, fun _ => trivial⟩
  · intro limit found
    cases found with
    | item list => exact ⟨fun _ _ => rfl, fun _ => trivial⟩
    | nothing => exact ⟨fun _ _ => rfl, fun _ => trivial⟩
    | ended => trivial

theorem Indifferent.answered {c : LoopCall} {next : c.Answer → Program loopCalls SyncLoop}
    (h : Indifferent (.call c next)) (r : c.Answer) : Indifferent (next r) := by
  cases c with
  | sync list => exact h.2 r
  | ahead d => exact h r
  | receive limit => exact h r
  | waitUntil moment => exact h r

/-- What is taken from the feed is what comes. -/
theorem pending_of_finds {now : Moment} {lists lists' : Feed (List Manifest)} {c : LoopCall}
    {r : c.Answer} (h : Finds now lists c r lists') :
    lists.pending = (heard ⟨c, r⟩).toList ++ lists'.pending := by
  cases c with
  | receive limit =>
    rcases h with ⟨rfl, -, rfl⟩ | ⟨-, hfound⟩
    · rfl
    · cases hpending : lists.pending with
      | nil =>
        rw [Feed.receive_of_empty hpending] at hfound
        obtain ⟨rfl, rfl⟩ := Prod.mk.inj hfound
        rw [hpending]
        cases lists.isLive <;> rfl
      | cons list rest =>
        rw [Feed.receive_of_pending hpending] at hfound
        obtain ⟨rfl, rfl⟩ := Prod.mk.inj hfound
        rfl
  | ahead d => rw [h.2]; rfl
  | waitUntil moment => rw [h.2]; rfl
  | sync list => rw [show lists' = lists from h]; rfl

/-- The loop waits until the moment that it was told by the clock. -/
theorem eq_ahead_of_limit? {log : LoopLog} {e : Exchange loopCalls} {limit : Moment}
    (h : limit? (due s (log ++ [e])) = some limit) : ∃ d, e = ⟨.ahead d, limit⟩ := by
  obtain ⟨c, r⟩ := e
  cases c with
  | ahead d =>
    have hnext := due_concat_ahead (s := s) log d r
    split at hnext <;> rw [hnext] at h <;> cases h <;> exact ⟨d, rfl⟩
  | receive limit' =>
    cases r with
    | item list => rw [due_concat_item] at h; cases h
    | nothing => rw [due_concat_nothing] at h; cases h
    | ended => rw [due_concat_ended] at h; cases h
  | waitUntil moment => rw [due_concat_waitUntil (r := r)] at h; cases h
  | sync list => rw [due_concat_sync (r := r)] at h; cases h

/-- The timer fires when the time is over, and the loop has not looked at the clock again. -/
theorem limit_of_fires {now : Moment} {lists lists' : Feed (List Manifest)} {c : LoopCall}
    {r : c.Answer} (h : Finds now lists c r lists') (hfires : fires ⟨c, r⟩ = true) :
    ∃ limit, limit? c = some limit ∧ limit ≤ now ∧ ∀ looked, lookedAt now looked c = looked := by
  cases c with
  | receive limit =>
    rcases h with ⟨rfl, hlimit, -⟩ | ⟨hfound, -⟩
    · exact ⟨limit, rfl, hlimit, fun _ => rfl⟩
    · cases r with
      | nothing => exact absurd rfl hfound
      | item list => cases hfires
      | ended => cases hfires
  | waitUntil moment => exact ⟨moment, rfl, h.1, fun _ => rfl⟩
  | ahead d => cases hfires
  | sync list => cases hfires

/-- The end of the source is found when everything has come; after that nothing is received. -/
theorem drained_of_finds {log : LoopLog} {now : Moment} {lists lists' : Feed (List Manifest)}
    {c : LoopCall} {r : c.Answer} (h : Finds now lists c r lists') (hdue : c = due s log)
    (hover : closed log = true → lists.isLive = false ∧ lists.pending = [])
    (hclosed : closed (log ++ [⟨c, r⟩]) = true) : lists'.isLive = false ∧ lists'.pending = [] := by
  rw [closed_concat] at hclosed
  cases hlog : closed log with
  | true =>
    have hlists : lists' = lists := by
      cases c with
      | receive limit => cases (closed_of_due hdue.symm).symm.trans hlog
      | ahead d => exact h.2
      | waitUntil moment => exact h.2
      | sync list => exact h
    rw [hlists]
    exact hover hlog
  | false =>
    rw [hlog, Bool.false_or] at hclosed
    cases c with
    | receive limit =>
      cases r with
      | ended =>
        rcases h with ⟨hfound, -⟩ | ⟨-, hfound⟩
        · cases hfound
        · obtain ⟨hpending, hlive, rfl⟩ := Feed.receive_eq_ended hfound
          exact ⟨hlive, hpending⟩
      | item list => cases hclosed
      | nothing => cases hclosed
    | ahead d => cases hclosed
    | waitUntil moment => cases hclosed
    | sync list => cases hclosed

theorem lawful_start (capacity : Nat) (begun : Moment) : Lawful s (start capacity begun) where
  heeds := ⟨rfl, rfl⟩
  indifferent := trivial
  asDue past e rest h := by cases past <;> cases h
  sent := rfl
  drained h := by cases h
  looked := Nat.le_refl begun
  limit _ h := by cases h
  timed h := by cases h

/-- **Whatever happens next keeps it.** Only an answer moves the log, and what it is follows from
the feed. -/
theorem Lawful.step (h : Lawful s a) (hstep : Step s a b) : Lawful s b := by
  cases hstep with
  | pass d =>
    exact { h with
      looked := Nat.le_add_right_of_le h.looked
      timed := fun hfired => Nat.le_add_right_of_le (h.timed hfired) }
  | send list hoffer =>
    refine { h with sent := ?_, drained := fun hclosed => ?_ }
    · rw [h.sent, Feed.pending_of_taken hoffer, List.append_assoc]
    · cases (Feed.isLive_of_taken hoffer).symm.trans (h.drained hclosed).1
  | close => exact { h with drained := fun hclosed => ⟨rfl, (h.drained hclosed).2⟩ }
  | @answer c next r lists hcall hfinds =>
    have hheeds := h.heeds
    have hindifferent := h.indifferent
    rw [hcall] at hheeds hindifferent
    obtain ⟨hdue, hnext⟩ := hheeds
    refine ⟨hnext r, hindifferent.answered r, asDue_concat.mpr ⟨h.asDue, hdue⟩, ?_,
      drained_of_finds hfinds hdue h.drained, ?_, ?_, ?_⟩
    · change a.sent = received (a.log ++ [⟨c, r⟩]) ++ lists.pending
      rw [received_concat, h.sent, pending_of_finds hfinds, List.append_assoc]
    · cases c with
      | ahead d => exact Nat.le_refl a.clock
      | _ => exact h.looked
    · intro limit hlimit
      obtain ⟨d, he⟩ := eq_ahead_of_limit? hlimit
      cases he
      rw [← span_of_due hdue.symm]
      exact hfinds.1
    · intro hfired
      change fired (a.log ++ [⟨c, r⟩]) = true at hfired
      rw [fired_concat] at hfired
      obtain ⟨limit, hlimit, hnow, hlooked⟩ := limit_of_fires hfinds hfired
      change lookedAt a.clock a.looked c + s.syncFrequency.toNanos ≤ a.clock
      rw [hlooked, ← h.limit limit (hdue ▸ hlimit)]
      exact hnow
  | turn hdone =>
    have hheeds := h.heeds
    rw [hdone] at hheeds
    exact { h with heeds := heeds_round hheeds, indifferent := indifferent_round _ }

theorem Reachable.lawful {capacity : Nat} {begun : Moment} (h : Reachable s capacity begun a) :
    Lawful s a := by
  induction h with
  | start => exact lawful_start capacity begun
  | step _ hstep ih => exact ih.step hstep

/-! ### Lists and passes -/

/-- What the passes of a loop have to do with the lists of its source. -/
structure Faithful (s : NodeSettings) (a : Syncing) : Prop where
  /-- Every pass is for the list that came last, the empty one before any. -/
  latest : ∀ past list r rest,
    a.log = past ++ ⟨.sync list, r⟩ :: rest → list = Syncing.latest past
  /-- When a list has come, the next call is the pass for it. -/
  atOnce : ∀ past limit list rest, a.log = past ++ ⟨.receive limit, .item list⟩ :: rest →
    (rest = [] ∧ ∃ next, a.loop = .call (.sync list) next) ∨
      ∃ r rest', rest = ⟨.sync list, r⟩ :: rest'
  /-- Without those that the timer started the passes are for the lists that came, in order; the
  list that has just come is owed its pass. -/
  inOrder : received a.log = prompted false a.log ++ owed a.log
  /-- The lists that came, and then those in the feed, are those that the source handed on. -/
  sent : a.sent = received a.log ++ a.lists.pending
  /-- The timer fires when its time is over since the loop looked at the clock. -/
  timed : fired a.log = true → a.looked + s.syncFrequency.toNanos ≤ a.clock
  /-- How a pass ends makes no difference. -/
  indifferent : ∀ list next, a.loop = .call (.sync list) next → ∀ r r', next r = next r'
  /-- The end of the source is found after all of its lists. -/
  all : closed a.log = true → received a.log = a.sent
  /-- After that no list is waited for. -/
  alone : ∀ past limit rest, a.log = past ++ ⟨.receive limit, .ended⟩ :: rest →
    ∀ e ∈ rest, ∀ limit', e.call ≠ .receive limit'
  /-- Passes go on: there are few exchanges between two of them. -/
  steady : ∀ past window rest, a.log = past ++ (window ++ rest) →
    window.filterMap passed = [] → window.length ≤ if closed past then 2 else 4
  /-- Once the time of a round is over, whatever the source does, the loop need not wait. -/
  ready : ∀ d, s.syncFrequency.toNanos ≤ d → ∀ c next, a.loop = .call c next →
    ∃ r lists, Finds (a.clock + d) a.lists c r lists

theorem Lawful.next_pass (h : Lawful s a) {past : LoopLog} {limit : Moment} {list : List Manifest}
    {rest : LoopLog} (hlog : a.log = past ++ ⟨.receive limit, .item list⟩ :: rest) :
    (rest = [] ∧ ∃ next, a.loop = .call (.sync list) next) ∨
      ∃ r rest', rest = ⟨.sync list, r⟩ :: rest' := by
  have hdue : due s (past ++ [⟨.receive limit, .item list⟩]) = .sync list :=
    due_concat_item.trans (congrArg LoopCall.sync latest_concat_item)
  cases rest with
  | nil =>
    have hheeds := h.heeds
    rw [hlog] at hheeds
    cases hloop : a.loop with
    | done l =>
      rw [hloop] at hheeds
      cases hdue.symm.trans hheeds.2
    | call c next =>
      rw [hloop] at hheeds
      obtain rfl : c = .sync list := hheeds.1.trans hdue
      exact .inl ⟨rfl, next, rfl⟩
  | cons e rest =>
    obtain ⟨c, r⟩ := e
    have hcall : c = due s (past ++ [⟨.receive limit, .item list⟩]) := h.asDue.next hlog
    obtain rfl : c = .sync list := hcall.trans hdue
    exact .inr ⟨r, rest, rfl⟩

/-- After the end of the source was found, no list is waited for. -/
theorem Lawful.call_ne_receive (h : Lawful s a) {past : LoopLog} {limit : Moment} {rest : LoopLog}
    (hlog : a.log = past ++ ⟨.receive limit, .ended⟩ :: rest) {e : Exchange loopCalls}
    (he : e ∈ rest) (limit' : Moment) : e.call ≠ .receive limit' := by
  obtain ⟨before, after, rfl⟩ := List.append_of_mem he
  have hdue : e.call = due s (past ++ ⟨.receive limit, .ended⟩ :: before) :=
    h.asDue _ e after (by rw [hlog, List.append_assoc, List.cons_append])
  have hclosed : closed (past ++ ⟨.receive limit, .ended⟩ :: before) = true := by
    simp [closed, ends]
  intro hcall
  cases (closed_of_due (hdue.symm.trans hcall)).symm.trans hclosed

/-- There are few exchanges between two passes. -/
theorem Lawful.length_le (h : Lawful s a) {past window rest : LoopLog}
    (hlog : a.log = past ++ (window ++ rest)) (hwindow : window.filterMap passed = []) :
    window.length ≤ if closed past then 2 else 4 := by
  have hdue : AsDue (due s) (past ++ window ++ rest) := by
    rw [List.append_assoc, ← hlog]
    exact h.asDue
  have hlength := length_add_toPass_le hdue.left hwindow
  split
  · next hclosed => exact Nat.le_trans (Nat.le_of_add_right_le hlength) (toPass_le_of_due hclosed)
  · exact Nat.le_trans (Nat.le_of_add_right_le hlength) (toPass_le _ _)

/-- No call waits longer than a round, since each of them has a limit or is answered at once. -/
theorem Lawful.finds (h : Lawful s a) {d : Nat} (hd : s.syncFrequency.toNanos ≤ d) {c : LoopCall}
    {next : c.Answer → Program loopCalls SyncLoop} (hloop : a.loop = .call c next) :
    ∃ r lists, Finds (a.clock + d) a.lists c r lists := by
  have hheeds := h.heeds
  rw [hloop] at hheeds
  have hdue : c = due s a.log := hheeds.1
  have hlimit {limit : Moment} (hc : limit? c = some limit) : limit ≤ a.clock + d := by
    rw [h.limit limit (hdue ▸ hc)]
    exact Nat.add_le_add h.looked hd
  cases c with
  | ahead span => exact ⟨_, a.lists, rfl, rfl⟩
  | receive limit => exact ⟨.nothing, a.lists, .inl ⟨rfl, hlimit rfl, rfl⟩⟩
  | waitUntil moment => exact ⟨(), a.lists, hlimit rfl, rfl⟩
  | sync list => exact ⟨.ok (), a.lists, rfl⟩

/-- **No list is skipped and none is invented.** However the source, the clock and the passes go,
in every state of a run the passes are those of the lists that came. -/
theorem passes_faithful {capacity : Nat} {begun : Moment} (hrun : Reachable s capacity begun a) :
    Faithful s a := by
  have h := hrun.lawful
  exact {
    latest := fun past list r rest hlog =>
      latest_of_due (h.asDue past ⟨.sync list, r⟩ rest hlog).symm
    atOnce := fun past limit list rest hlog => h.next_pass hlog
    inOrder := received_eq_prompted h.asDue
    sent := h.sent
    timed := h.timed
    indifferent := fun list next hloop => by
      have hindifferent := h.indifferent
      rw [hloop] at hindifferent
      exact hindifferent.1
    all := fun hclosed => by rw [h.sent, (h.drained hclosed).2, List.append_nil]
    alone := fun past limit rest hlog e he limit' => h.call_ne_receive hlog he limit'
    steady := fun past window rest hlog hwindow => h.length_le hlog hwindow
    ready := fun d hd c next hloop => h.finds hd hloop }

/-- The settings of a host with a timer of ten seconds. -/
def settings : NodeSettings where
  hostname := "h1"
  etcdServers := ["http://127.0.0.1:2379"]
  syncFrequency := .ofSeconds 10

/-- A list that comes, a pass for it that fails, the end of the source, and a pass on the timer. -/
theorem passes_faithful_failing :
    ∃ a, Reachable settings 1 0 a ∧ a.sent = [[{ id := "m1" }]] ∧
      a.log.filterMap passed = [[{ id := "m1" }], [{ id := "m1" }]] ∧ closed a.log = true ∧
      Faithful settings a := by
  have h : Reachable settings 1 0 _ := .start
  have h := h.step (.send [{ id := "m1" }] rfl)
  have h := h.step (.turn rfl)
  have h := h.step (.answer (c := .ahead settings.syncFrequency)
    (r := settings.syncFrequency.toNanos) rfl ⟨(Nat.zero_add _).symm, rfl⟩)
  have h := h.step (.answer (c := .receive settings.syncFrequency.toNanos)
    (r := .item [{ id := "m1" }]) rfl (.inr ⟨nofun, rfl⟩))
  have h := h.step (.close _)
  have h := h.step (.answer (c := .sync [{ id := "m1" }])
    (r := Except.error (.engine "down")) rfl rfl)
  -- the next round finds the end of the source, and the one after it waits for the timer
  have h := h.step (.turn rfl)
  have h := h.step (.answer (c := .ahead settings.syncFrequency)
    (r := settings.syncFrequency.toNanos) rfl ⟨(Nat.zero_add _).symm, rfl⟩)
  have h := h.step (.answer (c := .receive settings.syncFrequency.toNanos)
    (r := .ended) rfl (.inr ⟨nofun, rfl⟩))
  have h := h.step (.turn rfl)
  have h := h.step (.answer (c := .ahead settings.syncFrequency)
    (r := settings.syncFrequency.toNanos) rfl ⟨(Nat.zero_add _).symm, rfl⟩)
  have h := h.step (.pass _ settings.syncFrequency.toNanos)
  have h := h.step (.answer (c := .waitUntil settings.syncFrequency.toNanos) (r := ()) rfl
    ⟨Nat.le_add_left _ _, rfl⟩)
  have h := h.step (.answer (c := .sync [{ id := "m1" }]) (r := Except.ok ()) rfl rfl)
  exact ⟨_, h, rfl, rfl, rfl, passes_faithful h⟩

end Syncing

end ControlPlane.Node
