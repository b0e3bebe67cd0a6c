import ControlPlane.Proofs.Store.Watching

/-!
# Readers do not interfere

Somebody who uses a store sees the answers to the calls and the entries that they leave. The reader
of a subscription sees besides what it receives, and when its subscription ends. What else is going
on (other subscriptions, whether they are read, and how they end) is seen by neither, and the point
is that it cannot be found out: what is seen is settled by what is done in sight.

A run is therefore compared with what an observer sees of its moves (`acts`), in which the moves of
other readers are not there at all. Two runs may differ in any of them, and in the number that the
observed subscription has. Two subscriptions that are opened at one point in both runs are no
exception to this: for each of them the other is one of the others.

A view (`View`) is what an observer can be told of from now on. The argument is that a move out of
sight leaves the view alone, and that a move in sight does to it what `View.does` says, which knows
of no other subscription. That the changes of a call reach each subscription on its own is what
makes it work (`Store.perform_eq_deliver`).

## Main definitions

* `Act`, `History.acts`: what an observer sees being done
* `Sight`, `History.sights`: what the observer is told, and finds after it
* `View.does`: what an act does to a view

## Main results

* `History.view_after`: one move
* `History.sights_eq`: what is seen follows from what is done in sight
* `History.readers_apart`: runs that look the same are told the same
-/

namespace ControlPlane

/-- What an observer sees being done. The numbers of subscriptions are not among it, since they
depend on how many others have opened. -/
inductive Act where
  /-- A call on the entries. -/
  | call (now : Moment) (c : StoreCall)
  /-- The observed subscription is opened. -/
  | subscribe (key : String) (recursive : Bool)
  /-- Its reader takes what it finds. -/
  | receive
  /-- Its reader stops or goes away. -/
  | leave
  /-- All subscriptions are closed. -/
  | disconnect
deriving DecidableEq

/-- What an observer is told. -/
inductive Notice where
  /-- A call is answered. -/
  | answer (c : StoreCall) (result : Except Error c.Result)
  /-- The reader finds a change, or nothing yet, or the end. -/
  | found (x : Received Change)
  | nothing

/-- What an observer can be told of: the entries with their index, and the subscription that it
reads, if it reads one. -/
structure View where
  contents : Contents := {}
  own : Option Subscription := none

/-- What an observer is told by a move, and what it can be told of after it. -/
structure Sight where
  notice : Notice
  view : View

/-- The subscription that a move opens. -/
def Move.opened : Move → List Subscription
  | .call _ c => c.opened
  | .receive _ | .leave _ | .disconnect => []

/-- What an observer sees of a move when `n` subscriptions have been opened. The observer is the
reader of one subscription, or of none. -/
def Move.seenBy (who : Option WatchId) (n : Nat) : Move → Option Act
  | .call _ (.watch key recursive) => if who = some n then some (.subscribe key recursive) else none
  | .call now c => some (.call now c)
  | .receive id => if who = some id then some .receive else none
  | .leave id => if who = some id then some .leave else none
  | .disconnect => who.map fun _ => .disconnect

namespace View

/-- The view after what is seen being done. It is computed from the view alone, which is what makes
it independent of the others. -/
def does (v : View) : Act → View
  | .call now c =>
    { contents := (c.changes now v.contents).2
      own := v.own.map (Subscription.deliver (c.changes now v.contents).1) }
  | .subscribe key recursive => { v with own := some (.fresh key recursive) }
  | .receive => { v with own := v.own.map fun sub => { sub with feed := sub.feed.receive.2 } }
  | .leave => { v with own := v.own.map fun sub => { sub with feed := sub.feed.stop } }
  | .disconnect => { v with own := v.own.map fun sub => { sub with feed := sub.feed.detach } }

/-- What is told by what is seen being done. A call is answered as a store with the same entries
answers it to which nobody has subscribed. -/
def tells (v : View) : Act → Notice
  | .call now c => .answer c (Store.perform now c { contents := v.contents }).1
  | .receive => .found ((v.own.map Subscription.feed).getD .finished).receive.1
  | .subscribe .. | .leave | .disconnect => .nothing

/-- The sights of some acts, one after the other. -/
def sights (v : View) : List Act → List Sight
  | [] => []
  | a :: acts => ⟨v.tells a, v.does a⟩ :: (v.does a).sights acts

end View

namespace History

/-- What an observer sees being done in a run that begins when `n` subscriptions have been
opened. -/
def acts (who : Option WatchId) : Nat → List Move → List Act
  | _, [] => []
  | n, m :: moves => (m.seenBy who n).toList ++ acts who (n + m.opened.length) moves

/-- What an observer can be told of: the entries, and the subscription of its own if it has one. -/
def view (who : Option WatchId) (h : History) : View :=
  ⟨h.store.contents, who.bind (h.store.subscriptions[·]?)⟩

/-- What a move tells those who see it. -/
def tells (h : History) : Move → Notice
  | .call _ (.watch ..) => .nothing
  | .call now c => .answer c (h.store.perform now c).1
  | .receive id => .found (h.store.modifyFeed id Feed.receive).1
  | .leave _ | .disconnect => .nothing

/-- What an observer is told in a run, and finds after every move that it sees. -/
def sights (who : Option WatchId) (h : History) : List Move → List Sight
  | [] => []
  | m :: moves =>
    ((m.seenBy who h.store.subscriptions.length).toList.map fun _ =>
      ⟨h.tells m, (h.after m).view who⟩) ++ (h.after m).sights who moves

variable {who who' : Option WatchId}

/-! ### One move -/

/-- Subscriptions are never taken away, so their places in the list identify them for ever. -/
theorem length_subscriptions_after (h : History) (m : Move) :
    (h.after m).store.subscriptions.length = h.store.subscriptions.length + m.opened.length := by
  have hcount : (h.newcomer m).length = m.opened.length := by
    cases m with
    | call now c => cases c <;> rfl
    | _ => rfl
  rw [(h.length_after m).2, hcount]

/-- A call on the entries reaches the observed subscription as if it were the only one. -/
theorem view_after_call (h : History) (now : Moment) {c : StoreCall} (hentries : c.opened = []) :
    (h.after (.call now c)).view who = (h.view who).does (.call now c) := by
  change View.mk (h.store.perform now c).2.contents
    (who.bind ((h.store.perform now c).2.subscriptions[·]?)) = _
  rw [Store.perform_eq_deliver, hentries, List.append_nil]
  simp only [List.getElem?_map, view, View.does, Option.map_bind]
  rfl

/-- A new subscription is seen by nobody else. -/
theorem view_after_watch (h : History) (now : Moment) (key : String) (recursive : Bool) :
    (h.after (.call now (.watch key recursive))).view who =
      if who = some h.store.subscriptions.length then
        (h.view who).does (.subscribe key recursive)
      else h.view who := by
  change View.mk h.store.contents
    (who.bind ((h.store.subscriptions ++ [.fresh key recursive])[·]?)) = _
  cases who with
  | none => rfl
  | some id =>
    rcases Nat.lt_trichotomy id h.store.subscriptions.length with hold | rfl | hlater
    · rw [if_neg fun heq => hold.ne (Option.some.inj heq), Option.bind_some,
        List.getElem?_append_left hold]
      rfl
    · rw [if_pos rfl, Option.bind_some, List.getElem?_concat_length]
      rfl
    · have hnone : (h.store.subscriptions ++ [.fresh key recursive])[id]? =
          h.store.subscriptions[id]? := by
        rw [List.getElem?_eq_none (by rw [List.length_append, List.length_singleton]; omega),
          List.getElem?_eq_none hlater.le]
      rw [if_neg fun heq => hlater.ne' (Option.some.inj heq), Option.bind_some, hnone]
      rfl

/-- What happens to the feed of one subscription is seen by its reader only. -/
theorem view_modifyFeed {α : Type} {h h' : History} {id : WatchId}
    {f : Feed Change → α × Feed Change} (hstore : h'.store = (h.store.modifyFeed id f).2) :
    h'.view who =
      if who = some id then
        { h.view who with
          own := (h.view who).own.map fun sub => { sub with feed := (f sub.feed).2 } }
      else h.view who := by
  rw [view, hstore]
  change View.mk h.store.contents (who.bind ((h.store.subscriptions.modify id fun sub =>
    { sub with feed := (f (h.store.feed id)).2 })[·]?)) = _
  cases who with
  | none => rfl
  | some id' =>
    by_cases hid : id' = id
    · subst hid
      rw [if_pos rfl, Option.bind_some]
      cases hsub : h.store.subscriptions[id']? <;> simp [view, Store.feed, hsub]
    · rw [if_neg fun heq => hid (Option.some.inj heq), Option.bind_some, List.getElem?_modify_ne]
      · rfl
      · exact Ne.symm hid

/-- **A move out of sight changes nothing that can be seen,** and what a move in sight does to a
view follows from the view. -/
theorem view_after (h : History) (m : Move) :
    (h.after m).view who =
      (m.seenBy who h.store.subscriptions.length).elim (h.view who) (h.view who).does := by
  cases m with
  | call now c =>
    cases c with
    | watch key recursive =>
      rw [view_after_watch, Move.seenBy]
      split <;> rfl
    | _ => exact h.view_after_call now rfl
  | receive id =>
    rw [view_modifyFeed (h.store_after_receive id), Move.seenBy]
    split <;> rfl
  | leave id =>
    have hstore : (h.after (.leave id)).store =
        (h.store.modifyFeed id fun feed => ((), feed.stop)).2 := rfl
    rw [view_modifyFeed hstore, Move.seenBy]
    split <;> rfl
  | disconnect =>
    rw [view, after, Store.closeWatches]
    cases who with
    | none => rfl
    | some id => simp [Move.seenBy, View.does, view]

/-- What is told in sight follows from the view as well. -/
theorem tells_of_seen {h : History} {m : Move} {a : Act}
    (hseen : m.seenBy who h.store.subscriptions.length = some a) :
    h.tells m = (h.view who).tells a := by
  have hsame : ∀ {α : Type} (now : Moment) (effect : Contents → Contents.Effect α),
      (h.store.update now effect).1 =
        (Store.update { contents := h.store.contents } now effect).1 := fun now effect => by
    rw [(Store.update_eq_settle ..).1, (Store.update_eq_settle ..).1]
  cases m with
  | call now c =>
    cases c with
    | watch key recursive =>
      rw [Move.seenBy, Option.ite_none_right_eq_some] at hseen
      obtain ⟨-, ⟨⟩⟩ := hseen
      rfl
    | _ =>
      obtain rfl := Option.some.inj hseen
      exact congrArg (Notice.answer _) (hsame now _)
  | receive id =>
    rw [Move.seenBy, Option.ite_none_right_eq_some] at hseen
    obtain ⟨rfl, ⟨⟩⟩ := hseen
    rfl
  | leave id =>
    rw [Move.seenBy, Option.ite_none_right_eq_some] at hseen
    obtain ⟨-, ⟨⟩⟩ := hseen
    rfl
  | disconnect =>
    obtain ⟨_, -, rfl⟩ := Option.map_eq_some_iff.mp hseen
    rfl

/-! ### Whole runs -/

/-- **What is seen of a run follows from what is done in sight.** -/
theorem sights_eq (h : History) (moves : List Move) :
    h.sights who moves =
      (h.view who).sights (acts who h.store.subscriptions.length moves) := by
  induction moves generalizing h with
  | nil => rfl
  | cons m moves ih =>
    rw [sights, acts, ih, length_subscriptions_after, view_after]
    cases hseen : m.seenBy who h.store.subscriptions.length with
    | none => rfl
    | some a =>
      rw [tells_of_seen hseen]
      rfl

/-- **Readers do not interfere.** Two runs of a store in which an observer sees the same being done
give the same answers to its calls, leave the same entries with the same index after each of them,
and bring the reader of the observed subscription the same changes and the same end. Other
subscriptions may be opened in one run and not in the other, may be read or not, and may end in any
way. -/
theorem readers_apart {moves moves' : List Move} (hsame : acts who 0 moves = acts who' 0 moves') :
    sights who {} moves = sights who' {} moves' := by
  have hstart : view who {} = view who' {} := by
    cases who <;> cases who' <;> rfl
  rw [sights_eq, sights_eq, hstart]
  exact congrArg _ hsame

/-- A reader that keeps up, beside one that never receives and whose subscription ends with the
seventeenth write, and the same reader alone. -/
theorem readers_apart_unread :
    let write : Move := .call 0 (.set "/k" "v" none)
    let beside : List Move := .call 0 (.watch "/k" false) :: .call 0 (.watch "/" true) ::
      (List.replicate 17 [write, .receive 1]).flatten
    let alone : List Move := .call 0 (.watch "/" true) ::
      (List.replicate 17 [write, .receive 0]).flatten
    ((follow {} beside).store.feed 0).isLive = false ∧
      acts (some 1) 0 beside = acts (some 0) 0 alone ∧
      sights (some 1) {} beside = sights (some 0) {} alone :=
  ⟨by decide +kernel, by decide +kernel, readers_apart (by decide +kernel)⟩

end History

end ControlPlane
