import ControlPlane.Proofs.Feed
import ControlPlane.Proofs.Store.Changes

/-!
# What the readers of a store see

A reader subscribes to a key and from then on receives its changes, as long as it keeps up. What it
has received is nowhere in the store, and neither are the changes of the past; a `History` is a
store together with both, so that they can be compared.

Between the moves of a history there is no order: calls at any moment, readers that receive or leave
and lost connections may follow one another in any way. A move acts on each subscription on its own,
as `Turn` says, and so one reader never learns of another. The invariant of a subscription,
`Reader.Follows`, then has to be shown for four kinds of turns only, of which handing on a batch is
the one with content: it either fits, or fills the buffer in its middle and ends the subscription.

## Main definitions

* `History`, `Move`, `History.after`: runs of a store with its readers
* `Reader.due`: the changes that a reader has asked for
* `Turn`: what a move comes to for one subscription
* `Reader.Follows`: the invariant
* `History.Told`: what a reader can rely on

## Main results

* `History.after_at`: a move acts on each subscription on its own
* `Reader.Follows.turn`, `History.Sound.after`: the invariant is kept
* `History.readers_told`: no gap, no repetition, no other order, and no silent end
-/

namespace ControlPlane

/-- A subscription as its reader knows it: what it asked for, and what it has been told. -/
structure Reader where
  /-- The key as the reader wrote it. -/
  key : String
  recursive : Bool
  /-- How many changes had been made before. -/
  opened : Nat
  received : List Change := []
deriving DecidableEq

namespace Reader

/-- The key without slashes at its end, which is what the store goes by. -/
def watched (r : Reader) : String := String.ofList (trimEnd '/' r.key.toList)

/-- Whether the reader has asked for the changes of a key. -/
def wants (r : Reader) (key : String) : Bool :=
  key == r.watched || r.recursive && Path.isUnder r.watched key true

/-- Those of some changes that the reader has asked for. -/
def wanted (r : Reader) (changes : List Change) : List Change :=
  changes.filter fun x => r.wants x.node.key

/-- The changes that the reader has asked for, out of all that were ever made. -/
def due (r : Reader) (log : List Change) : List Change := r.wanted (log.drop r.opened)

end Reader

/-- A store with the changes of its past and its readers. -/
structure History where
  store : Store := .empty
  /-- All changes that were made, oldest first. -/
  log : List Change := []
  /-- The readers, by the numbers of their subscriptions. -/
  readers : List Reader := []

/-- What may happen next. Nothing is said about who does it, or why, so all that is shown of a
history holds among any clients. -/
inductive Move where
  /-- A call of the store. -/
  | call (now : Moment) (c : StoreCall)
  /-- A reader takes what it finds. -/
  | receive (id : WatchId)
  /-- A reader stops or goes away. -/
  | leave (id : WatchId)
  /-- All subscriptions are closed. -/
  | disconnect

/-- The changes of a move. Only calls of the store make any. -/
def Move.changes (contents : Contents) : Move → List Change
  | call now c => (c.changes now contents).1
  | receive _ | leave _ | disconnect => []

namespace History

/-- The reader that a move brings, if it opens a subscription. -/
def newcomer (h : History) : Move → List Reader
  | .call _ (.watch key recursive) => [⟨key, recursive, h.log.length, []⟩]
  | _ => []

/-- The history after a move. -/
def after (h : History) (m : Move) : History :=
  match m with
  | .call now c =>
    { store := (h.store.perform now c).2
      log := h.log ++ m.changes h.store.contents
      readers := h.readers ++ h.newcomer m }
  | .receive id =>
    match h.store.modifyFeed id Feed.receive with
    | (.item x, store) =>
      { h with
        store := store
        readers := h.readers.modify id fun r => { r with received := r.received ++ [x] } }
    | (_, store) => { h with store := store }
  | .leave id => { h with store := (h.store.modifyFeed id fun feed => ((), feed.stop)).2 }
  | .disconnect => { h with store := h.store.closeWatches }

/-- The history after some moves. -/
def follow (h : History) (moves : List Move) : History := moves.foldl after h

theorem follow_concat (h : History) (moves : List Move) (m : Move) :
    h.follow (moves ++ [m]) = (h.follow moves).after m :=
  List.foldl_concat ..

end History

/-! ### One move, one subscription -/

/-- What a move comes to for the subscription `id` and its reader, and what it leaves of both. -/
inductive Turn (id : WatchId) (r : Reader) (sub : Subscription) :
    Move → List Change → Reader → Subscription → Prop
  /-- A call hands its changes on. -/
  | handed (now : Moment) (c : StoreCall) (changes : List Change) :
      Turn id r sub (.call now c) changes r (sub.deliver changes)
  /-- The reader takes what has been buffered longest. -/
  | received (x : Change) (rest : List Change) : sub.feed.pending = x :: rest →
      Turn id r sub (.receive id) [] { r with received := r.received ++ [x] }
        { sub with feed := { sub.feed with pending := rest } }
  /-- The subscription ends, with what is buffered. -/
  | ended (m : Move) (feed : Feed Change) : m = .leave id ∨ m = .disconnect →
      feed.pending = sub.feed.pending → feed.capacity = sub.feed.capacity → feed.isLive = false →
      Turn id r sub m [] r { sub with feed := feed }
  /-- The move is about another subscription, or finds nothing to take. -/
  | idle (m : Move) : Turn id r sub m [] r sub

theorem Turn.reader_eq {id : WatchId} {m : Move} {changes : List Change} {r r' : Reader}
    {sub sub' : Subscription} (hturn : Turn id r sub m changes r' sub') (hm : m ≠ .receive id) :
    r' = r := by
  cases hturn with
  | received => exact absurd rfl hm
  | handed => rfl
  | ended => rfl
  | idle => rfl

/-- Whatever happens, a reader has asked for what it has asked for. -/
theorem Turn.exists_received {id : WatchId} {m : Move} {changes : List Change} {r r' : Reader}
    {sub sub' : Subscription} (hturn : Turn id r sub m changes r' sub') :
    ∃ received, r' = { r with received := received } := by
  cases hturn with
  | received x => exact ⟨r.received ++ [x], rfl⟩
  | handed => exact ⟨r.received, rfl⟩
  | ended => exact ⟨r.received, rfl⟩
  | idle => exact ⟨r.received, rfl⟩

namespace History

variable {h : History} {id : WatchId} {r : Reader} {sub : Subscription}

/-- The history has `r` as the reader of the subscription `sub`, under the number `id`. -/
structure Has (h : History) (id : WatchId) (r : Reader) (sub : Subscription) : Prop where
  reader : h.readers[id]? = some r
  subscription : h.store.subscriptions[id]? = some sub

theorem Has.feed (hhas : h.Has id r sub) : h.store.feed id = sub.feed := by
  rw [Store.feed, hhas.subscription]
  rfl

theorem has_after_receive (hhas : h.Has id r sub) {x : Change} {rest : List Change}
    (hpending : sub.feed.pending = x :: rest) :
    (h.after (.receive id)).Has id { r with received := r.received ++ [x] }
      { sub with feed := { sub.feed with pending := rest } } := by
  rw [after, Store.modifyFeed, hhas.feed, Feed.receive_of_pending hpending]
  exact ⟨by simp [hhas.reader], by simp [hhas.subscription]⟩

/-- **A move acts on each subscription on its own.** -/
theorem after_at (hhas : h.Has id r sub) (m : Move) :
    ∃ r' sub', (h.after m).Has id r' sub' ∧
      Turn id r sub m (m.changes h.store.contents) r' sub' := by
  have hreader := hhas.reader
  have hsubscription := hhas.subscription
  cases m with
  | call now c =>
    refine ⟨r, _, ⟨?_, ?_⟩, .handed now c _⟩
    · change (h.readers ++ h.newcomer (.call now c))[id]? = some r
      rw [List.getElem?_append_left (List.getElem?_eq_some_iff.mp hreader).1, hreader]
    · have hbound : id < (h.store.subscriptions.map
          (Subscription.deliver (c.changes now h.store.contents).1)).length := by
        rw [List.length_map]
        exact (List.getElem?_eq_some_iff.mp hsubscription).1
      change (h.store.perform now c).2.subscriptions[id]? = _
      rw [Store.perform_eq_deliver, List.getElem?_append_left hbound, List.getElem?_map,
        hsubscription]
      rfl
  | receive id' =>
    by_cases hid : id' = id
    · subst hid
      cases hpending : sub.feed.pending with
      | nil =>
        refine ⟨r, sub, ?_, .idle _⟩
        rw [after, Store.modifyFeed, hhas.feed, Feed.receive_of_empty hpending]
        cases sub.feed.isLive <;> exact ⟨hreader, by simp [hsubscription]⟩
      | cons x rest => exact ⟨_, _, has_after_receive hhas hpending, .received x rest hpending⟩
    · refine ⟨r, sub, ?_, .idle _⟩
      rw [after, Store.modifyFeed]
      generalize (h.store.feed id').receive = found
      obtain ⟨found, feed⟩ := found
      cases found <;> exact ⟨by simp [hreader, hid], by simp [hsubscription, hid]⟩
  | leave id' =>
    by_cases hid : id' = id
    · subst hid
      refine ⟨r, _, ⟨hreader, ?_⟩, .ended _ sub.feed.stop (.inl rfl) rfl rfl (Bool.and_false _)⟩
      simp [after, Store.modifyFeed, hhas.feed, hsubscription]
    · refine ⟨r, sub, ⟨hreader, ?_⟩, .idle _⟩
      simp [after, Store.modifyFeed, hsubscription, hid]
  | disconnect =>
    refine ⟨r, _, ⟨hreader, ?_⟩, .ended _ sub.feed.detach (.inr rfl) rfl rfl rfl⟩
    simp [after, Store.closeWatches, hsubscription]

/-- What a reader receives is what has been buffered longest. -/
theorem has_received (hhas : h.Has id r sub) {x : Change}
    (hx : (h.store.modifyFeed id Feed.receive).1 = .item x) :
    ∃ sub', (h.after (.receive id)).Has id { r with received := r.received ++ [x] } sub' := by
  rw [Store.modifyFeed, hhas.feed] at hx
  cases hpending : sub.feed.pending with
  | nil =>
    rw [Feed.receive_of_empty hpending] at hx
    cases hlive : sub.feed.isLive <;> simp [hlive] at hx
  | cons y rest =>
    rw [Feed.receive_of_pending hpending] at hx
    obtain rfl := Received.item.inj hx
    exact ⟨_, has_after_receive hhas hpending⟩

end History

/-! ### One subscription -/

namespace Reader

/-- What holds of a reader and its subscription after the changes `log`: nothing that the reader has
asked for was left out before what was received or is buffered, and nothing at all as long as the
subscription is live. -/
structure Follows (log : List Change) (r : Reader) (sub : Subscription) : Prop where
  key : sub.key = r.watched
  recursive : sub.recursive = r.recursive
  capacity : sub.feed.capacity = Subscription.bufferSize
  room : sub.feed.pending.length ≤ sub.feed.capacity
  opened : r.opened ≤ log.length
  inOrder : r.received ++ sub.feed.pending <+: r.due log
  complete : sub.feed.isLive = true → r.received ++ sub.feed.pending = r.due log

variable {log changes : List Change} {r : Reader} {sub : Subscription}

theorem due_append (h : r.opened ≤ log.length) (changes : List Change) :
    r.due (log ++ changes) = r.due log ++ r.wanted changes := by
  rw [due, due, wanted, wanted, wanted, List.drop_append_of_le_length h, List.filter_append]

theorem follows_opened (key : String) (recursive : Bool) (log : List Change) :
    Follows log ⟨key, recursive, log.length, []⟩
      (.fresh key recursive) where
  key := rfl
  recursive := rfl
  capacity := rfl
  room := Nat.zero_le _
  opened := Nat.le_refl _
  inOrder := List.nil_prefix
  complete _ := by rw [due, List.drop_length]; rfl

/-- The subscription has asked for what the reader has asked for. -/
theorem Follows.deliver_eq (h : r.Follows log sub) (changes : List Change) :
    sub.deliver changes = { sub with feed := (r.wanted changes).foldl Feed.push sub.feed } := by
  have hcovers : ∀ key, sub.covers key = r.wants key := fun key => by
    rw [Subscription.covers, wants, h.key, h.recursive]
  simp only [Subscription.deliver, wanted, hcovers]

/-- A subscription that ends keeps what is buffered, so its reader still gets what came before the
end. -/
theorem Follows.finish (h : r.Follows log sub) {feed : Feed Change}
    (hpending : feed.pending = sub.feed.pending) (hcapacity : feed.capacity = sub.feed.capacity)
    (hended : feed.isLive = false) : r.Follows log { sub with feed := feed } where
  key := h.key
  recursive := h.recursive
  capacity := hcapacity.trans h.capacity
  room := by
    rw [hpending, hcapacity]
    exact h.room
  opened := h.opened
  inOrder := by
    rw [hpending]
    exact h.inOrder
  complete hlive := absurd (hended.symm.trans hlive) (by decide)

/-- What is received was the next that was buffered. -/
theorem Follows.receive (h : r.Follows log sub) {x : Change} {rest : List Change}
    (hpending : sub.feed.pending = x :: rest) :
    Follows log { r with received := r.received ++ [x] }
      { sub with feed := { sub.feed with pending := rest } } := by
  have hsame : (r.received ++ [x]) ++ rest = r.received ++ sub.feed.pending := by
    rw [hpending, List.append_assoc, List.singleton_append]
  have hroom := h.room
  rw [hpending, List.length_cons] at hroom
  exact
    { key := h.key
      recursive := h.recursive
      capacity := h.capacity
      room := Nat.le_of_succ_le hroom
      opened := h.opened
      inOrder := by
        change (r.received ++ [x]) ++ rest <+: r.due log
        rw [hsame]
        exact h.inOrder
      complete := fun hlive => hsame.trans (h.complete hlive) }

/-- A live subscription takes the beginning of a batch. -/
theorem Follows.take (h : r.Follows log sub) (hlive : sub.feed.isLive = true) {feed : Feed Change}
    {l : List Change} (hpending : feed.pending = sub.feed.pending ++ l)
    (hcapacity : feed.capacity = sub.feed.capacity)
    (hroom : sub.feed.pending.length + l.length ≤ sub.feed.capacity)
    (hbegin : l <+: r.wanted changes) (hall : feed.isLive = true → l = r.wanted changes) :
    r.Follows (log ++ changes) { sub with feed := feed } := by
  have hheld : r.received ++ feed.pending = r.due log ++ l := by
    rw [hpending, ← List.append_assoc, h.complete hlive]
  have hdue := due_append h.opened changes
  exact
    { key := h.key
      recursive := h.recursive
      capacity := hcapacity.trans h.capacity
      room := by rwa [hpending, hcapacity, List.length_append]
      opened := Nat.le_trans h.opened (by simp)
      inOrder := by
        change r.received ++ feed.pending <+: _
        rw [hheld, hdue]
        exact (List.prefix_append_right_inj _).mpr hbegin
      complete := fun hlive' => by
        change r.received ++ feed.pending = _
        rw [hheld, hdue, hall hlive'] }

theorem Follows.miss (h : r.Follows log sub) (hended : sub.feed.isLive = false)
    (changes : List Change) : r.Follows (log ++ changes) sub where
  key := h.key
  recursive := h.recursive
  capacity := h.capacity
  room := h.room
  opened := Nat.le_trans h.opened (by simp)
  inOrder := by
    rw [due_append h.opened]
    exact h.inOrder.trans (List.prefix_append ..)
  complete hlive := absurd (hended.symm.trans hlive) (by decide)

/-- **A batch that is handed on** either fits, or one of its changes finds the buffer full and only
those before it are taken. -/
theorem Follows.deliver (h : r.Follows log sub) (changes : List Change) :
    r.Follows (log ++ changes) (sub.deliver changes) := by
  rw [h.deliver_eq]
  have hcapacity := Feed.capacity_foldl_push (r.wanted changes) sub.feed
  cases hlive : sub.feed.isLive with
  | false =>
    obtain ⟨hpending, hended⟩ := Feed.foldl_push_of_ended hlive (r.wanted changes)
    exact (h.miss hlive changes).finish hpending hcapacity hended
  | true =>
    rcases Feed.fits_or_overflows h.room (r.wanted changes) with hfits | ⟨pre, x, post, hl, hfull⟩
    · refine h.take hlive ?_ hcapacity hfits List.prefix_rfl fun _ => rfl
      rw [Feed.foldl_push_of_fits hlive hfits]
    · obtain ⟨hpending, hended⟩ := Feed.foldl_push_of_overflows hlive hfull x post
      rw [hl] at hcapacity ⊢
      refine h.take hlive hpending hcapacity (Nat.le_of_eq hfull) ?_ fun hlive' => ?_
      · rw [hl]
        exact List.prefix_append ..
      · exact absurd (hended.symm.trans hlive') (by decide)

variable {id : WatchId} {m : Move} {r' : Reader} {sub' : Subscription}

/-- **Every move keeps what holds of a subscription.** There is one case for each way in which a
move concerns it, and in most of them it does not. -/
theorem Follows.turn (h : r.Follows log sub) (hturn : Turn id r sub m changes r' sub') :
    r'.Follows (log ++ changes) sub' := by
  cases hturn with
  | handed now c => exact h.deliver changes
  | received x rest hpending =>
    rw [List.append_nil]
    exact h.receive hpending
  | ended _ feed hm hpending hcapacity hended =>
    rw [List.append_nil]
    exact h.finish hpending hcapacity hended
  | idle =>
    rw [List.append_nil]
    exact h

/-- **A live subscription ends in three ways only:** its reader leaves, all subscriptions are
closed, or a change that the reader has asked for finds its buffer full. -/
theorem Follows.ends (h : r.Follows log sub) (hturn : Turn id r sub m changes r' sub')
    (hlive : sub.feed.isLive = true) (hended : sub'.feed.isLive = false) :
    m = .leave id ∨ m = .disconnect ∨
      ∃ pre x post, r.wanted changes = pre ++ x :: post ∧
        (sub.feed.pending ++ pre).length = Subscription.bufferSize ∧
        sub'.feed.pending = sub.feed.pending ++ pre := by
  have hnever : sub.feed.isLive ≠ false := fun heq => absurd (heq.symm.trans hlive) (by decide)
  cases hturn with
  | handed now c =>
    rw [h.deliver_eq] at hended ⊢
    rcases Feed.fits_or_overflows h.room (r.wanted changes) with hfits | ⟨pre, x, post, hl, hfull⟩
    · rw [Feed.foldl_push_of_fits hlive hfits] at hended
      exact absurd hended hnever
    · refine .inr (.inr ⟨pre, x, post, hl, ?_, ?_⟩)
      · rw [List.length_append, hfull, h.capacity]
      · rw [hl]
        exact (Feed.foldl_push_of_overflows hlive hfull x post).1
  | received x rest hpending => exact absurd hended hnever
  | ended _ feed hm => exact hm.imp_right .inl
  | idle => exact absurd hended hnever

end Reader

/-- **A subscription that has ended** stays so, and its reader gets what is buffered in it and
nothing else. -/
theorem Turn.of_ended {id : WatchId} {m : Move} {changes : List Change} {r r' : Reader}
    {sub sub' : Subscription} (hturn : Turn id r sub m changes r' sub')
    (hended : sub.feed.isLive = false) :
    sub'.feed.isLive = false ∧
      ∃ taken, r' = { r with received := r.received ++ taken } ∧
        sub.feed.pending = taken ++ sub'.feed.pending := by
  have hsame : r = { r with received := r.received ++ [] } := by rw [List.append_nil]
  cases hturn with
  | handed now c =>
    obtain ⟨hpending, hstill⟩ := Feed.foldl_push_of_ended hended
      (changes.filter fun x => sub.covers x.node.key)
    exact ⟨hstill, [], hsame, hpending.symm⟩
  | received x rest hpending => exact ⟨hended, [x], rfl, hpending⟩
  | ended _ feed hm hpending hcapacity hlast => exact ⟨hlast, [], hsame, hpending.symm⟩
  | idle => exact ⟨hended, [], hsame, rfl⟩

/-! ### Whole histories -/

namespace History

variable {h : History} {id : WatchId} {r : Reader} {sub : Subscription}

/-- What holds of a history: the changes account for the contents, and every subscription has a
reader who follows it. -/
structure Sound (h : History) : Prop where
  evolved : Contents.Evolves {} h.log h.store.contents
  length : h.readers.length = h.store.subscriptions.length
  follows : ∀ id r sub, h.Has id r sub → r.Follows h.log sub

theorem sound_start : Sound {} where
  evolved := .refl {}
  length := rfl
  follows id r sub hhas := by cases hhas.reader

theorem log_after (h : History) (m : Move) :
    (h.after m).log = h.log ++ m.changes h.store.contents := by
  cases m with
  | call now c => rfl
  | receive id =>
    rw [after, Move.changes, List.append_nil]
    split <;> rfl
  | leave id => exact (List.append_nil _).symm
  | disconnect => exact (List.append_nil _).symm

theorem store_after_receive (h : History) (id : WatchId) :
    (h.after (.receive id)).store = (h.store.modifyFeed id Feed.receive).2 := by
  rw [after]
  split
  · rename_i heq
    rw [heq]
  · rename_i heq
    rw [heq]

theorem evolves_after (h : History) (m : Move) :
    h.store.contents.Evolves (m.changes h.store.contents) (h.after m).store.contents := by
  cases m with
  | call now c =>
    change h.store.contents.Evolves _ (h.store.perform now c).2.contents
    rw [Store.perform_eq_deliver]
    exact c.evolves now h.store.contents
  | receive id =>
    rw [store_after_receive]
    exact .refl _
  | leave id => exact .refl _
  | disconnect => exact .refl _

theorem newcomer_cases (h : History) (m : Move) :
    h.newcomer m = [] ∨ ∃ now key recursive, m = .call now (.watch key recursive) := by
  cases m with
  | call now c =>
    cases c with
    | watch key recursive => exact .inr ⟨now, key, recursive, rfl⟩
    | _ => exact .inl rfl
  | _ => exact .inl rfl

/-- Readers and subscriptions come together, so a reader and its subscription have the same place.
-/
theorem length_after (h : History) (m : Move) :
    (h.after m).readers.length = h.readers.length + (h.newcomer m).length ∧
      (h.after m).store.subscriptions.length =
        h.store.subscriptions.length + (h.newcomer m).length := by
  cases m with
  | call now c =>
    refine ⟨List.length_append, ?_⟩
    change (h.store.perform now c).2.subscriptions.length = _
    rw [Store.perform_eq_deliver, List.length_append, List.length_map]
    cases c <;> rfl
  | receive id =>
    constructor
    · rw [after]
      split
      · exact List.length_modify ..
      · rfl
    · rw [store_after_receive]
      exact List.length_modify ..
  | leave id => exact ⟨rfl, List.length_modify ..⟩
  | disconnect => exact ⟨rfl, List.length_map _⟩

/-- A subscription is live when it is opened, and its reader has received nothing. -/
theorem has_opened (hsound : h.Sound) (now : Moment) (key : String) (recursive : Bool) :
    (h.after (.call now (.watch key recursive))).Has h.readers.length
      ⟨key, recursive, h.log.length, []⟩
      (.fresh key recursive) where
  reader := List.getElem?_concat_length
  subscription := by
    rw [hsound.length]
    exact List.getElem?_concat_length

theorem Sound.after (hsound : h.Sound) (m : Move) : (h.after m).Sound where
  evolved := by
    rw [log_after]
    exact hsound.evolved.trans (h.evolves_after m)
  length := by
    obtain ⟨hreaders, hsubscriptions⟩ := h.length_after m
    rw [hreaders, hsubscriptions, hsound.length]
  follows id r' sub' hhas' := by
    rw [log_after]
    rcases Nat.lt_or_ge id h.readers.length with hold | hnew
    · -- the subscription was there before, and the move acted on it
      have hold' : id < h.store.subscriptions.length := hsound.length ▸ hold
      have hhas : h.Has id h.readers[id] h.store.subscriptions[id] :=
        ⟨List.getElem?_eq_getElem hold, List.getElem?_eq_getElem hold'⟩
      obtain ⟨_, _, hturned, hturn⟩ := after_at hhas m
      obtain rfl := Option.some.inj (hturned.reader.symm.trans hhas'.reader)
      obtain rfl := Option.some.inj (hturned.subscription.symm.trans hhas'.subscription)
      exact (hsound.follows id _ _ hhas).turn hturn
    · -- the move opened it
      have hbound := (List.getElem?_eq_some_iff.mp hhas'.reader).1
      rw [(h.length_after m).1] at hbound
      rcases h.newcomer_cases m with hnone | ⟨now, key, recursive, rfl⟩
      · rw [hnone, List.length_nil] at hbound
        omega
      · obtain rfl : id = h.readers.length := Nat.le_antisymm (Nat.lt_succ_iff.mp hbound) hnew
        have hopened := has_opened hsound now key recursive
        obtain rfl := Option.some.inj (hopened.reader.symm.trans hhas'.reader)
        obtain rfl := Option.some.inj (hopened.subscription.symm.trans hhas'.subscription)
        rw [Move.changes, StoreCall.changes, List.append_nil]
        exact Reader.follows_opened key recursive h.log

/-- The invariant holds along every history. -/
theorem Sound.follow (hsound : h.Sound) (moves : List Move) : (h.follow moves).Sound := by
  induction moves generalizing h with
  | nil => exact hsound
  | cons m moves ih => exact ih (hsound.after m)

/-- Some moves make the changes that they add to the log. -/
theorem evolves_follow (h : History) (moves : List Move) :
    ∃ changes, (h.follow moves).log = h.log ++ changes ∧
      h.store.contents.Evolves changes (h.follow moves).store.contents := by
  induction moves generalizing h with
  | nil => exact ⟨[], (List.append_nil _).symm, .refl _⟩
  | cons m moves ih =>
    obtain ⟨changes, hlog, hevolves⟩ := ih (h.after m)
    refine ⟨m.changes h.store.contents ++ changes, ?_, (h.evolves_after m).trans hevolves⟩
    rw [← List.append_assoc, ← h.log_after m]
    exact hlog

/-- A subscription that was opened keeps its reader. -/
theorem follow_at (hhas : h.Has id r sub) (moves : List Move) :
    ∃ received sub', (h.follow moves).Has id { r with received := received } sub' := by
  induction moves generalizing h r sub with
  | nil => exact ⟨r.received, sub, hhas⟩
  | cons m moves ih =>
    obtain ⟨_, _, hnext, hturn⟩ := after_at hhas m
    obtain ⟨_, rfl⟩ := hturn.exists_received
    obtain ⟨received, sub', hlast⟩ := ih hnext
    exact ⟨received, sub', hlast⟩

/-- What is still received of a subscription that has ended was buffered at its end. -/
theorem follow_of_ended (hhas : h.Has id r sub) (hended : sub.feed.isLive = false)
    (moves : List Move) :
    ∃ taken sub', (h.follow moves).Has id { r with received := r.received ++ taken } sub' ∧
      sub'.feed.isLive = false ∧ sub.feed.pending = taken ++ sub'.feed.pending := by
  induction moves generalizing h r sub with
  | nil => exact ⟨[], sub, by rwa [List.append_nil], hended, rfl⟩
  | cons m moves ih =>
    obtain ⟨_, _, hnext, hturn⟩ := after_at hhas m
    obtain ⟨hstill, taken, rfl, hpending⟩ := hturn.of_ended hended
    obtain ⟨more, sub', hlast, hfinished, hrest⟩ := ih hnext hstill
    refine ⟨taken ++ more, sub', ?_, hfinished, ?_⟩
    · rwa [← List.append_assoc]
    · rw [hpending, hrest, List.append_assoc]

/-- What the reader `r` of the subscription `id` can rely on. What it has received and what is
buffered are the first of the changes that it has asked for, in order, and all of them as long as
the subscription is live. A subscription that nobody ended ends only when a further change finds its
buffer full. After that the reader receives what is buffered, and then the end, whatever happens. -/
structure Told (h : History) (id : WatchId) (r : Reader) : Prop where
  room : (h.store.feed id).pending.length ≤ Subscription.bufferSize
  inOrder : r.received ++ (h.store.feed id).pending <+: r.due h.log
  complete : (h.store.feed id).isLive = true →
    r.received ++ (h.store.feed id).pending = r.due h.log
  ends : ∀ m, (h.store.feed id).isLive = true → ((h.after m).store.feed id).isLive = false →
    m = .leave id ∨ m = .disconnect ∨
      ∃ pre x post, r.wanted (m.changes h.store.contents) = pre ++ x :: post ∧
        ((h.store.feed id).pending ++ pre).length = Subscription.bufferSize ∧
        ((h.after m).store.feed id).pending = (h.store.feed id).pending ++ pre
  ended : (h.store.feed id).isLive = false → ∀ moves,
    ((h.follow moves).store.feed id).isLive = false ∧
      (∃ taken, (h.follow moves).readers[id]? = some { r with received := r.received ++ taken } ∧
        (h.store.feed id).pending = taken ++ ((h.follow moves).store.feed id).pending) ∧
      ((h.follow moves).store.modifyFeed id Feed.receive).1 =
        ((h.follow moves).store.feed id).pending.head?.elim .ended .item

theorem Sound.told (hsound : h.Sound) (hhas : h.Has id r sub) : h.Told id r := by
  have hfollows := hsound.follows id r sub hhas
  refine ⟨?_, ?_, ?_, fun m hlive hended => ?_, fun hended moves => ?_⟩
  · rw [hhas.feed, ← hfollows.capacity]
    exact hfollows.room
  · rw [hhas.feed]
    exact hfollows.inOrder
  · rw [hhas.feed]
    exact hfollows.complete
  · obtain ⟨_, _, hnext, hturn⟩ := after_at hhas m
    rw [hhas.feed] at hlive ⊢
    rw [hnext.feed] at hended ⊢
    exact hfollows.ends hturn hlive hended
  · rw [hhas.feed] at hended ⊢
    obtain ⟨taken, sub', hlast, hfinished, hpending⟩ := follow_of_ended hhas hended moves
    rw [hlast.feed]
    refine ⟨hfinished, ⟨taken, hlast.reader, hpending⟩, ?_⟩
    change ((h.follow moves).store.feed id).receive.1 = _
    rw [hlast.feed]
    exact Feed.receive_of_ended hfinished

/-- **Readers miss nothing, see nothing twice and nothing out of order.** Whatever happens to a
store, its changes are told one by one, each with an index above those before it, and a reader that
subscribes is told of them from then on. -/
theorem readers_told (moves : List Move) :
    let h : History := follow {} moves
    Contents.Evolves {} h.log h.store.contents ∧
      (h.log.Pairwise fun x y => x.node.index < y.node.index) ∧
      (∀ now key recursive,
        let t := h.after (.call now (.watch key recursive))
        (h.store.perform now (.watch key recursive)).1 = .ok h.readers.length ∧
          t.readers[h.readers.length]? = some ⟨key, recursive, h.log.length, []⟩ ∧
          (t.store.feed h.readers.length).isLive = true) ∧
      ∀ id r, h.readers[id]? = some r → h.Told id r := by
  intro h
  have hsound : h.Sound := sound_start.follow moves
  refine ⟨hsound.evolved, hsound.evolved.increasing, fun now key recursive => ?_, fun id r hr => ?_⟩
  · have hopened := has_opened hsound now key recursive
    refine ⟨?_, hopened.reader, ?_⟩
    · rw [hsound.length]
      rfl
    · rw [hopened.feed]
      rfl
  · have hbound : id < h.store.subscriptions.length :=
      hsound.length ▸ (List.getElem?_eq_some_iff.mp hr).1
    exact hsound.told ⟨hr, List.getElem?_eq_getElem hbound⟩

/-- A reader that never receives, on a key that is written seventeen times: the last write finds
sixteen changes in the buffer and ends the subscription. -/
theorem readers_told_unread :
    let h : History := follow {} (.call 0 (.watch "/k/" false) ::
      List.replicate 17 (.call 0 (.set "/k" "v" none)))
    h.log.length = 17 ∧ (h.store.feed 0).isLive = false ∧ (h.store.feed 0).pending = h.log.take 16 ∧
      h.Told 0 ⟨"/k/", false, 0, []⟩ := by
  intro h
  exact ⟨by decide +kernel, by decide +kernel, by decide +kernel,
    (readers_told _).2.2.2 0 _ (by decide +kernel)⟩

end History

end ControlPlane
