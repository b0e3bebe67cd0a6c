import ControlPlane.Proofs.Node.Following
import ControlPlane.Proofs.Program.Exchanges
import ControlPlane.Proofs.Registry.Binding

/-!
# A watcher has one subscription at a time

A subscription that nobody takes from costs the store a copy of every change until its buffer is
full, so a watcher leaves one before it opens another, and before it goes to sleep. It can come to
leave one in five ways: the reading behind it fails before the store has ever answered, its time is
over, it has ended by itself, or nobody takes the list that was read or that came with a change.

Two things are kept apart here. What the *watcher* does is a protocol: at each of its calls it holds
one subscription or none, and which calls it makes depends on that. It never looks at the store for
this; it has left a subscription when it has said so, or has been told of the end. What the *store*
does is that a subscription which has ended stays so. Of all subscriptions that a watcher ever
opened, then, at most the one that it holds is open.

Everybody else may do anything at any moment, to these subscriptions as well: nothing that others do
opens a subscription of the watcher.

## Main definitions

* `Watching.held?`, `Holds.allows`, `Holds.after`: the protocol
* `Subscriber`, `Subscriber.Step`: a watcher in the middle of its work, with all it ever opened

## Main results

* `Watching.obeys_round`: a round keeps to the protocol
* `Subscriber.Tidy.step`: one step keeps what holds of all subscriptions that were opened
* `Subscriber.Reachable.one_open`: one subscription at a time, and none while it sleeps or has ended
-/

namespace ControlPlane

/-- What is open was open. No move brings a subscription back that has ended. -/
theorem History.isLive_of_after {h : History} (hsound : h.Sound) {id : WatchId}
    (hid : id < h.readers.length) (m : Move) (hlive : ((h.after m).store.feed id).isLive = true) :
    (h.store.feed id).isLive = true := by
  have hid' : id < h.store.subscriptions.length := hsound.length ▸ hid
  have hhas : h.Has id h.readers[id] h.store.subscriptions[id] :=
    ⟨List.getElem?_eq_getElem hid, List.getElem?_eq_getElem hid'⟩
  obtain ⟨_, _, hnext, hturn⟩ := History.after_at hhas m
  rw [hnext.feed] at hlive
  rw [hhas.feed]
  cases hwas : h.store.subscriptions[id].feed.isLive with
  | true => rfl
  | false => exact (hturn.of_ended hwas).1.symm.trans hlive

theorem History.isLive_after_leave (h : History) (id : WatchId) :
    ((h.after (.leave id)).store.feed id).isLive = false := by
  rw [after, Store.modifyFeed, Store.feed, List.getElem?_modify_eq]
  cases h.store.subscriptions[id]? with
  | none => rfl
  | some sub => exact Bool.and_false _

/-- What is found to have ended is not open. -/
theorem History.isLive_after_ended {h : History} {id : WatchId}
    (hended : (h.store.modifyFeed id Feed.receive).1 = .ended) :
    ((h.after (.receive id)).store.feed id).isLive = false := by
  obtain ⟨-, hclosed, hsame⟩ := Feed.receive_eq_ended
    (show (h.store.feed id).receive = (.ended, (h.store.feed id).receive.2) from
      Prod.ext hended rfl)
  rw [store_after_receive, Store.modifyFeed, Store.feed, List.getElem?_modify_eq]
  cases hsub : h.store.subscriptions[id]? with
  | none => rfl
  | some sub =>
    show (h.store.feed id).receive.2.isLive = false
    rw [hsame]
    exact hclosed

namespace Node

open Program

namespace Watching

/-- The subscription that a stage holds. -/
def held? : Watching → Option WatchId
  | subscribing _ => none
  | following w _ => some w

end Watching

/-! ### The protocol -/

namespace Holds

/-- What a watcher may call that holds a subscription or none: it opens one and sleeps if it holds
none, and takes from none and leaves none but its own. -/
def allows (own : Option WatchId) : WatcherCall → Prop
  | .store (.watch ..) | .wait _ => own = none
  | .receive w _ | .stop w => own = some w
  | _ => True

/-- What it holds after a call. A call that fails to open a subscription leaves it with what it
held. -/
def after (own : Option WatchId) : (c : WatcherCall) → c.Answer → Option WatchId
  | .store (.watch ..), .ok id => some id
  | .receive .., .ended => none
  | .stop _, _ => none
  | _, _ => own

end Holds

namespace Watching

variable {s : NodeSettings} {w : WatchId} {limit : Moment}

/-- Some work keeps to the protocol, and ends with what the next stage holds. -/
abbrev Keeps (work : Program watcherCalls (Option Watching)) (own : Option WatchId) : Prop :=
  work.Obeys Holds.allows Holds.after (fun next own => own = next.bind held?) own

theorem obeys_follow : Keeps (follow s w) (some w) :=
  ⟨trivial, fun _ => rfl⟩

/-- A list that nobody takes is the last thing. -/
theorem obeys_handOn {manifests : List Manifest} {next : Program watcherCalls (Option Watching)}
    (hnext : Keeps next (some w)) : Keeps (handOn w manifests next) (some w) := by
  refine ⟨trivial, fun taken => ?_⟩
  cases taken with
  | true => exact hnext
  | false => exact ⟨rfl, fun _ => rfl⟩

/-- Reading keeps what is held, and opens nothing. -/
theorem obeys_read (host : String) (own : Option WatchId) :
    ((Registry.manifests host).run.expand fun c => ask (I := watcherCalls) (.store c)).Obeys
      Holds.allows Holds.after (fun _ own' => True ∧ own' = own) own := by
  have hasks : ((Registry.manifests host).run.expand fun c =>
      ask (I := watcherCalls) (.store c)).Asks
      (fun c : WatcherCall => ∃ c', c = .store c' ∧ c'.isRead = true) fun _ => True :=
    asks_expand (fun c post hc h => ⟨⟨c, rfl, hc⟩, h⟩) (Registry.asks_manifests host)
  refine Asks.obeys hasks ?_ ?_
  · rintro _ ⟨c, rfl, hread⟩
    cases c <;> trivial
  · rintro _ answer ⟨c, rfl, hread⟩
    cases c <;> first | rfl | cases hread

/-- **A round keeps to the protocol,** from what its stage holds to what the next one does. -/
theorem obeys_round (stage : Watching) : Keeps (stage.round s) stage.held? := by
  cases stage with
  | subscribing answered =>
    refine ⟨rfl, fun opened => ?_⟩
    cases opened with
    | error e => exact ⟨rfl, fun _ => rfl⟩
    | ok w =>
      refine (obeys_read s.hostname (some w)).bind ?_
      rintro read _ ⟨-, rfl⟩
      cases read with
      | ok manifests => exact obeys_handOn obeys_follow
      | error e =>
        cases answered with
        | true => exact obeys_follow
        | false => exact ⟨rfl, fun _ => ⟨rfl, fun _ => rfl⟩⟩
  | following w limit =>
    refine ⟨rfl, fun received => ?_⟩
    cases received with
    | nothing => exact ⟨rfl, fun _ => rfl⟩
    | ended => rfl
    | item change =>
      show Keeps (Watcher.heed w limit (classify (some change))) (some w)
      rw [Watcher.classify_some]
      cases listed? change.left with
      | none => rfl
      | some manifests => exact obeys_handOn rfl

end Watching

/-! ### All subscriptions of a watcher -/

/-- A watcher in the middle of its work, in a store with its past and all its readers. -/
structure Subscriber where
  history : History := {}
  /-- Every subscription that the watcher has ever opened. -/
  opened : List WatchId := []
  /-- What is left of the round. -/
  rest : Program watcherCalls (Option Watching)

namespace Subscriber

/-- What a call opens. -/
def openedBy : (c : WatcherCall) → c.Answer → List WatchId
  | .store (.watch ..), .ok id => [id]
  | _, _ => []

/-- Whether a subscription is open, that is, whether changes may still come from it. -/
def isOpen (x : Subscriber) (id : WatchId) : Bool := (x.history.store.feed id).isLive

/-- What may happen next. The store and its subscriptions are open to everybody at any time, between
the calls of the watcher and while it waits. -/
inductive Step (s : NodeSettings) (x : Subscriber) : Subscriber → Prop
  /-- Anybody does anything to the store and its subscriptions. -/
  | moved (m : Move) : Step s x { x with history := x.history.after m }
  /-- A call of the watcher is answered. -/
  | answered {c : WatcherCall} {next : c.Answer → Program watcherCalls (Option Watching)}
      {a : c.Answer} {h : History} : x.rest = .call c next → Watcher.Does x.history c a h →
      Step s x ⟨h, x.opened ++ openedBy c a, next a⟩
  /-- A call of the store fails, for any reason. -/
  | failed {c : StoreCall} {next : Except Error c.Result → Program watcherCalls (Option Watching)}
      (e : Error) : x.rest = .call (WatcherCall.store c) next →
      Step s x { x with rest := next (.error e) }
  /-- A round is over, and the next begins. -/
  | turned {stage : Watching} : x.rest = .done (some stage) →
      Step s x { x with rest := stage.round s }

/-- Where a watcher that starts on an empty store may come to. -/
inductive Reachable (s : NodeSettings) : Subscriber → Prop
  | start : Reachable s { rest := Watching.start.round s }
  | step {x y : Subscriber} : Reachable s x → Step s x y → Reachable s y

/-- What holds of a watcher that holds `own`, or nothing: the rest of its round keeps to the
protocol, and nothing else that it ever opened is open. -/
structure Tidy (own : Option WatchId) (x : Subscriber) : Prop where
  sound : x.history.Sound
  known : ∀ id ∈ x.opened, id < x.history.readers.length
  distinct : x.opened.Nodup
  rest : Watching.Keeps x.rest own
  open_eq : ∀ id ∈ x.opened, x.isOpen id = true → own = some id

variable {s : NodeSettings} {own : Option WatchId} {x y : Subscriber}

theorem tidy_start : Tidy none { rest := Watching.start.round s } where
  sound := History.sound_start
  known := nofun
  distinct := .nil
  rest := Watching.obeys_round .start
  open_eq := nofun

/-- A move opens nothing of what there is, so others cannot make the watcher hold more than it
knows. -/
theorem Tidy.after (hx : Tidy own x) (m : Move) :
    Tidy own { x with history := x.history.after m } where
  sound := hx.sound.after m
  known id hid := by
    rw [(x.history.length_after m).1]
    exact Nat.lt_add_right _ (hx.known id hid)
  distinct := hx.distinct
  rest := hx.rest
  open_eq id hid hopen :=
    hx.open_eq id hid (History.isLive_of_after hx.sound (hx.known id hid) m hopen)

/-- The watcher goes on, and holds less or the same. -/
theorem Tidy.goOn {own' : Option WatchId} {p : Program watcherCalls (Option Watching)}
    (hx : Tidy own x) (hrest : Watching.Keeps p own')
    (hopen : ∀ id ∈ x.opened, x.isOpen id = true → own = some id → own' = some id) :
    Tidy own' { x with rest := p } where
  sound := hx.sound
  known := hx.known
  distinct := hx.distinct
  rest := hrest
  open_eq id hid hlive := hopen id hid hlive (hx.open_eq id hid hlive)

/-- A subscription is opened where there was none. -/
theorem Tidy.opens (hx : Tidy none x) {p : Program watcherCalls (Option Watching)} (now : Moment)
    (key : String) (recursive : Bool)
    (hrest : Watching.Keeps p (some x.history.store.subscriptions.length)) :
    Tidy (some x.history.store.subscriptions.length)
      ⟨x.history.after (.call now (.watch key recursive)),
        x.opened ++ [x.history.store.subscriptions.length], p⟩ := by
  have hmoved := hx.after (.call now (.watch key recursive))
  have hlength := x.history.length_after (.call now (.watch key recursive))
  refine ⟨hmoved.sound, ?_, ?_, hrest, ?_⟩
  · refine List.forall_mem_append.mpr ⟨hmoved.known, List.forall_mem_singleton.mpr ?_⟩
    rw [← hx.sound.length, hlength.1]
    exact Nat.lt_succ_self _
  · refine List.nodup_append'.mpr ⟨hx.distinct, List.nodup_singleton _, ?_⟩
    refine List.disjoint_singleton.mpr fun hmem => ?_
    exact Nat.lt_irrefl _ (hx.sound.length ▸ hx.known _ hmem)
  · refine List.forall_mem_append.mpr ⟨fun id hid hopen => ?_, List.forall_mem_singleton.mpr ?_⟩
    · cases hmoved.open_eq id hid hopen
    · exact fun _ => rfl

/-- Nothing is opened, and what is held is still held. -/
theorem Tidy.stays {h : History} (hx : Tidy own { x with history := h })
    {p : Program watcherCalls (Option Watching)} (hrest : Watching.Keeps p own) :
    Tidy own ⟨h, x.opened ++ [], p⟩ := by
  rw [List.append_nil]
  exact hx.goOn hrest fun _ _ _ h => h

/-- The watcher lets go of what it holds, and then holds nothing. -/
theorem Tidy.letsGo {id : WatchId} {m : Move} (hx : Tidy (some id) x)
    {p : Program watcherCalls (Option Watching)} (hrest : Watching.Keeps p none)
    (hclosed : ((x.history.after m).store.feed id).isLive = false) :
    Tidy none ⟨x.history.after m, x.opened ++ [], p⟩ := by
  rw [List.append_nil]
  refine (hx.after m).goOn hrest fun id' _ hopen hown => ?_
  obtain rfl := Option.some.inj hown
  exact absurd (hclosed.symm.trans hopen) (by decide)

/-- **One step keeps it,** with what the watcher holds then. -/
theorem Tidy.step (hx : Tidy own x) (hstep : Step s x y) : ∃ own', Tidy own' y := by
  cases hstep with
  | moved m => exact ⟨own, hx.after m⟩
  | turned hdone =>
    have hrest := hx.rest
    rw [hdone] at hrest
    refine ⟨own, hx.goOn ?_ fun _ _ _ h => h⟩
    rw [show own = _ from hrest]
    exact Watching.obeys_round _
  | @failed c next e hcall =>
    obtain ⟨hallows, hrest⟩ := hcall ▸ hx.rest
    refine ⟨own, hx.goOn ?_ fun _ _ _ h => h⟩
    have hnext := hrest (.error e)
    cases c <;> exact hnext
  | @answered c next a h hcall hdoes =>
    obtain ⟨hallows, hrest⟩ := hcall ▸ hx.rest
    have hnext := hrest a
    cases hdoes with
    | performed now c =>
      cases c with
      | watch key recursive =>
        obtain rfl : own = none := hallows
        exact ⟨_, hx.opens now key recursive hnext⟩
      | _ => exact ⟨own, (hx.after _).stays hnext⟩
    | failed c e => cases c <;> exact ⟨own, hx.stays hnext⟩
    | sent => exact ⟨own, hx.stays hnext⟩
    | waited => exact ⟨own, hx.stays hnext⟩
    | looked => exact ⟨own, hx.stays hnext⟩
    | received id limit =>
      obtain rfl : own = some id := hallows
      have hmoved := hx.after (.receive id)
      generalize hfound : (x.history.store.modifyFeed id Feed.receive).1 = found at hnext ⊢
      cases found with
      | item change => exact ⟨_, hmoved.stays hnext⟩
      | nothing => exact ⟨_, hmoved.stays hnext⟩
      | ended => exact ⟨_, hx.letsGo hnext (History.isLive_after_ended hfound)⟩
    | lapsed => exact ⟨own, hx.stays hnext⟩
    | stopped id =>
      obtain rfl : own = some id := hallows
      exact ⟨_, hx.letsGo hnext (x.history.isLive_after_leave id)⟩

theorem Reachable.tidy (hx : Reachable s x) : ∃ own, Tidy own x := by
  induction hx with
  | start => exact ⟨none, tidy_start⟩
  | step _ hstep ih =>
    obtain ⟨own, hown⟩ := ih
    exact hown.step hstep

theorem Tidy.countP_isOpen (hx : Tidy own x) : x.opened.countP x.isOpen ≤ 1 := by
  have hsub : x.opened.filter x.isOpen ⊆ own.toList := by
    intro id hid
    obtain ⟨hmem, hopen⟩ := List.mem_filter.mp hid
    exact Option.mem_toList.mpr (hx.open_eq id hmem hopen)
  have hdistinct : (x.opened.filter x.isOpen).Nodup := hx.distinct.filter _
  rw [List.countP_eq_length_filter]
  refine (List.subperm_of_subset hdistinct hsub).length_le.trans ?_
  cases own with
  | none => exact Nat.zero_le 1
  | some id => exact Nat.le_refl 1

theorem Tidy.isOpen_eq_false (hx : Tidy none x) : ∀ id ∈ x.opened, x.isOpen id = false :=
  fun id hid => Bool.eq_false_iff.mpr fun hopen => nomatch hx.open_eq id hid hopen

/-- **One subscription at a time.** Whatever others do and however the calls of the watcher are
answered, at most one of the subscriptions that it has ever opened is open, and none is open while
it waits before it tries again, or after its last round. -/
theorem Reachable.one_open (hx : Reachable s x) :
    x.opened.countP x.isOpen ≤ 1 ∧
      (∀ d next, x.rest = call (I := watcherCalls) (.wait d) next →
        ∀ id ∈ x.opened, x.isOpen id = false) ∧
      (x.rest = done none → ∀ id ∈ x.opened, x.isOpen id = false) := by
  obtain ⟨own, htidy⟩ := hx.tidy
  refine ⟨htidy.countP_isOpen, fun d next hwait => ?_, fun hlast => ?_⟩
  · have hrest := htidy.rest
    rw [hwait] at hrest
    obtain rfl : own = none := hrest.1
    exact htidy.isOpen_eq_false
  · have hrest := htidy.rest
    rw [hlast] at hrest
    obtain rfl : own = none := hrest
    exact htidy.isOpen_eq_false

/-- The first reading fails, so the first subscription is left; after a while there is a second. -/
theorem Reachable.one_open_second :
    (∃ x d next, Reachable { hostname := "h1" } x ∧
      x.rest = call (I := watcherCalls) (.wait d) next ∧ x.opened = [0] ∧
      ∀ id ∈ x.opened, x.isOpen id = false) ∧
    ∃ x, Reachable { hostname := "h1" } x ∧ x.opened = [0, 1] ∧ x.isOpen 1 = true ∧
      x.opened.countP x.isOpen ≤ 1 := by
  have h1 : Reachable { hostname := "h1" } _ :=
    Reachable.start.step (.answered rfl (.performed 0 _))
  have h2 := h1.step (@Step.failed _ _ (.get (Keys.manifests "h1")) _ (.store "down") rfl)
  have h3 := h2.step (.answered rfl (.stopped 0))
  have h4 := h3.step (.answered rfl (.waited _))
  have h5 := h4.step (.turned rfl)
  have h6 := h5.step (.answered rfl (.performed 0 _))
  exact ⟨⟨_, _, _, h3, rfl, rfl, h3.one_open.2.1 _ _ rfl⟩, _, h6, rfl, rfl, h6.one_open.1⟩

end Subscriber

end Node

end ControlPlane
