import ControlPlane.Node.Watcher
import ControlPlane.Proofs.Program.Ensures
import ControlPlane.Proofs.Registry.Documents
import ControlPlane.Proofs.Store.Watching
import ControlPlane.Proofs.Text.Pieces

/-!
# The watcher of a host misses no update

A watcher subscribes, then reads, then takes the changes one by one. Everybody else may do anything
in between: write and remove the manifest list, or something above it, let its buffer run over,
close all subscriptions. Its own calls may fail, it may give up a subscription while there is still
something to take, and a list may not be taken by anybody.

What is read may be newer than changes that are still to come, so it may happen that an older list
is handed on after a newer one. It does not stay so. What was heard last, by reading or by
receiving, is followed by everything that was changed since: either it is the last change received,
and all changes after it are still buffered, or nothing has been received, and all changes after the
*subscription* are, among them those after the reading. `Informed` says this, and once nothing is
buffered it says that what was heard last is what is there.

## Main definitions

* `Watcher`, `Watcher.Meets`, `Watcher.Reachable`: a watcher, what its calls may meet with, and
  where that leads
* `Informed`: what was heard last, and what is to come
* `Watcher.Steady`, `Watcher.Connected`: the invariant

## Main results

* `Informed.current`: with nothing to come, what was heard last is what is there
* `Watcher.ensures_round`: a round keeps the invariant
* `Watcher.hands_on_current`: the last list is the current one
-/

namespace ControlPlane.Node

open Program Registry

/-! ### A watcher among others -/

/-- The list that a value stands for, if it can be read. Where there is no value, nothing shall
run. -/
def listed? : Option String → Option (List Manifest)
  | none => some []
  | some value => (Manifest.decodeList value).toOption

/-- A watcher, by what it has done so far, and the store that it watches. -/
structure Watcher where
  history : History := {}
  /-- The subscription that it opened last. -/
  subscription : Option WatchId := none
  /-- Whether the reading behind that subscription has succeeded. -/
  answered : Bool := false
  /-- What it was told of its key, by reading or by a change: the value, or that there is none. -/
  heard : List (Option String) := []
  /-- The lists that were taken from it. -/
  sent : List (List Manifest) := []

namespace Watcher

/-- What others may do: anything but to receive from a subscription that is not theirs, or to leave
it. -/
inductive Others (own : Option WatchId) (h : History) : History → Prop
  | none : Others own h h
  | move {h' : History} {m : Move} : Others own h h' →
      (∀ id, own = some id → m ≠ .receive id ∧ m ≠ .leave id) → Others own h (h'.after m)

/-- What a call of the watcher may do, and how it may be answered. A call of the store may fail, and
then does not claim that there is nothing. The time of a subscription may be over at any moment. -/
inductive Does (h : History) : (c : WatcherCall) → c.Answer → History → Prop
  | performed (now : Moment) (c : StoreCall) :
      Does h (.store c) (h.store.perform now c).1 (h.after (.call now c))
  | failed (c : StoreCall) (e : Error) : e.isNotFound = false → Does h (.store c) (.error e) h
  | sent (manifests : List Manifest) (taken : Bool) : Does h (.send manifests) taken h
  | waited (d : Span) : Does h (.wait d) () h
  | looked (d : Span) (moment : Moment) : Does h (.ahead d) moment h
  | received (id : WatchId) (limit : Moment) :
      Does h (.receive id limit) (h.store.modifyFeed id Feed.receive).1 (h.after (.receive id))
  | lapsed (id : WatchId) (limit : Moment) : Does h (.receive id limit) .nothing h
  | stopped (id : WatchId) : Does h (.stop id) () (h.after (.leave id))

/-- The watcher after a call was answered. Only what the answers tell is noted, so it is known in
every run what has been noted. -/
def note (x : Watcher) : (c : WatcherCall) → c.Answer → Watcher
  | .store (.watch ..), .ok id => { x with subscription := some id, answered := false }
  | .store (.get _), .ok node =>
    { x with
      heard := x.heard ++ [some (Node.value node)]
      answered := (listed? (some (Node.value node))).isSome }
  | .store (.get _), .error e =>
    if e.isNotFound then { x with heard := x.heard ++ [none], answered := true } else x
  | .receive .., .item change => { x with heard := x.heard ++ [change.left] }
  | .send manifests, taken =>
    if (show Bool from taken) then { x with sent := x.sent ++ [manifests] } else x
  | _, _ => x

/-- The steps of all that a watcher meets with: others act, and then its call is answered. -/
def Meets : watcherCalls.Steps Watcher := fun c x a y =>
  ∃ h h', Others x.subscription x.history h ∧ Does h c a h' ∧
    y = { x with history := h' }.note c a

/-- The states of a watcher between two rounds. Before it starts, and whenever it has a call
outstanding, others may act. -/
inductive Reachable (s : NodeSettings) : Watching → Watcher → Prop
  | start : Reachable s .start {}
  | others {stage : Watching} {x : Watcher} {h : History} : Reachable s stage x →
      Others x.subscription x.history h → Reachable s stage { x with history := h }
  | round {stage next : Watching} {x y : Watcher} : Reachable s stage x →
      Reaches Meets (stage.round s) x (.done (some next)) y → Reachable s next y

end Watcher

/-! ### What was heard last -/

/-- What was heard last is what was last received, or, if nothing was received, what was there at
some moment after the subscription was opened. -/
def Informed (log : List Change) (r : Reader) (heard : List (Option String)) : Prop :=
  ∃ past, past <+: log ∧ r.opened ≤ past.length ∧
    heard.getLast? = some (r.received.getLast?.elim (lastLeft past r.watched) Change.left)

section

variable {log more : List Change} {r : Reader} {sub : Subscription} {heard : List (Option String)}

theorem Informed.later (h : Informed log r heard) (hlog : log <+: more) :
    Informed more r heard := by
  obtain ⟨past, hpast, hopened, hlast⟩ := h
  exact ⟨past, hpast.trans hlog, hopened, hlast⟩

theorem Informed.receive (h : Informed log r heard) (x : Change) :
    Informed log { r with received := r.received ++ [x] } (heard ++ [x.left]) := by
  obtain ⟨past, hpast, hopened, -⟩ := h
  refine ⟨past, hpast, hopened, ?_⟩
  rw [List.getLast?_concat, List.getLast?_concat]
  rfl

/-- **When nothing is to come, what was heard last is what is there.** -/
theorem Informed.current (h : Informed log r heard) (hfollows : r.Follows log sub)
    (hkey : r.recursive = false) (hlive : sub.feed.isLive = true) (hnone : sub.feed.pending = []) :
    heard.getLast? = some (lastLeft log r.watched) := by
  obtain ⟨past, ⟨rest, rfl⟩, hopened, hlast⟩ := h
  have hwants : ∀ x : Change, r.wants x.node.key = (x.node.key == r.watched) := by
    intro x
    rw [Reader.wants, hkey, Bool.false_and, Bool.or_false]
  have hreceived : r.received =
      ((past ++ rest).drop r.opened).filter fun x => x.node.key == r.watched := by
    have hcomplete := hfollows.complete hlive
    rw [hnone, List.append_nil] at hcomplete
    rw [hcomplete, Reader.due, Reader.wanted]
    simp only [hwants]
  rw [hlast]
  congr 1
  cases hlatest : r.received.getLast? with
  | some x =>
    -- the last change of the key was received
    show x.left = lastLeft (past ++ rest) r.watched
    rw [lastLeft, ← List.take_append_drop r.opened (past ++ rest), List.filter_append,
      ← hreceived, List.getLast?_append, hlatest]
    rfl
  | none =>
    -- the key was not changed after it was read
    have hrest : rest.filter (fun x => x.node.key == r.watched) = [] := by
      rw [List.getLast?_eq_none_iff.mp hlatest, List.drop_append_of_le_length hopened,
        List.filter_append] at hreceived
      exact (List.append_eq_nil_iff.mp hreceived.symm).2
    show lastLeft past r.watched = lastLeft (past ++ rest) r.watched
    rw [lastLeft, lastLeft, List.filter_append, hrest, List.append_nil]

end

namespace Watcher

/-! ### The invariant -/

/-- The lists that were taken are those that were heard of, but for the lists `due` that are still
to be handed on. -/
structure Steady (x : Watcher) (due : List (List Manifest)) : Prop where
  sound : x.history.Sound
  sent : x.heard.filterMap listed? = x.sent ++ due

/-- The watcher has the subscription `id` to the manifest list of the host, and is informed by it if
its reading has succeeded. -/
def Connected (host : String) (x : Watcher) (id : WatchId) : Prop :=
  x.subscription = some id ∧ ∃ r sub, x.history.Has id r sub ∧ r.key = Keys.manifests host ∧
    r.recursive = false ∧ (x.answered = true → Informed x.history.log r x.heard)

/-- What holds between two rounds: nothing is about to be handed on, and the subscription that is
followed is the last one that was opened. -/
def Ready (s : NodeSettings) (stage : Watching) (x : Watcher) : Prop :=
  Steady x [] ∧ ∀ id limit, stage = .following id limit → Connected s.hostname x id

/-- Nothing was handed on that was not heard of. -/
def Faithful (x : Watcher) : Prop := x.sent <+: x.heard.filterMap listed?

variable {s : NodeSettings} {host : String} {x y : Watcher} {h h' : History} {id : WatchId}
  {due : List (List Manifest)}

theorem Steady.faithful (hx : Steady x due) : x.Faithful := by
  rw [Faithful, hx.sent]
  exact List.prefix_append ..

theorem Others.sound (hothers : Others x.subscription x.history h) (hx : x.history.Sound) :
    h.Sound := by
  induction hothers with
  | none => exact hx
  | move _ _ ih => exact ih.after _

theorem Steady.others (hx : Steady x due) (hothers : Others x.subscription x.history h) :
    Steady { x with history := h } due :=
  ⟨hothers.sound hx.sound, hx.sent⟩

theorem Does.sound {c : WatcherCall} {a : c.Answer} (hdoes : Does h c a h') (hsound : h.Sound) :
    h'.Sound := by
  cases hdoes with
  | performed | received | stopped => exact hsound.after _
  | failed | sent | waited | looked | lapsed => exact hsound

/-- A call that tells the watcher nothing, so that only what others do has to be looked at. -/
theorem Steady.met {c : WatcherCall} {a : c.Answer} (hx : Steady x due)
    (hothers : Others x.subscription x.history h) (hdoes : Does h c a h') :
    Steady { x with history := h' } due :=
  ⟨hdoes.sound (hothers.sound hx.sound), hx.sent⟩

/-- A call of the store is nothing that others might not do as well. -/
theorem Others.store {own : Option WatchId} {c : StoreCall} {a : Except Error c.Result}
    {h₀ : History} (hothers : Others own h₀ h) (hdoes : Does h (.store c) a h') :
    Others own h₀ h' := by
  cases hdoes with
  | performed now => exact .move hothers fun _ _ => ⟨nofun, nofun⟩
  | failed => exact hothers

/-- What is heard and can be read is due. -/
theorem Steady.hear (hx : Steady x []) (hsound : h.Sound) (value : Option String)
    (answered : Bool) :
    Steady { x with history := h, heard := x.heard ++ [value], answered := answered }
      (listed? value).toList := by
  refine ⟨hsound, ?_⟩
  show (x.heard ++ [value]).filterMap listed? = x.sent ++ (listed? value).toList
  rw [List.filterMap_append, hx.sent, List.append_nil]
  cases hvalue : listed? value <;> simp [hvalue]

theorem log_prefix_after (h : History) (m : Move) : h.log <+: (h.after m).log := by
  rw [History.log_after]
  exact List.prefix_append ..

/-- **Others tell a reader nothing.** What they change comes behind what was heard. -/
theorem Others.has {r : Reader} {sub : Subscription} (hothers : Others (some id) h h')
    (hhas : h.Has id r sub) : (∃ sub', h'.Has id r sub') ∧ h.log <+: h'.log := by
  induction hothers with
  | none => exact ⟨⟨sub, hhas⟩, List.prefix_rfl⟩
  | @move h' m _ hforeign ih =>
    obtain ⟨⟨sub', hhas'⟩, hlog⟩ := ih
    obtain ⟨r', sub'', hhas'', hturn⟩ := History.after_at hhas' m
    obtain rfl := hturn.reader_eq (hforeign id rfl).1
    exact ⟨⟨sub'', hhas''⟩, hlog.trans (log_prefix_after h' m)⟩

theorem Connected.others (hx : Connected host x id)
    (hothers : Others x.subscription x.history h) : Connected host { x with history := h } id := by
  obtain ⟨hown, r, sub, hhas, hkey, hrecursive, hinformed⟩ := hx
  rw [hown] at hothers
  obtain ⟨⟨sub', hhas'⟩, hlog⟩ := hothers.has hhas
  exact ⟨hown, r, sub', hhas', hkey, hrecursive, fun hanswered => (hinformed hanswered).later hlog⟩

/-! ### One call -/

section

variable {α : Type} {c : WatcherCall} {next : c.Answer → Program watcherCalls α}
  {post : α → Watcher → Prop}

/-- A call of the watcher, with what others do before it. -/
theorem ensures_meets (hx : x.Faithful)
    (hnext : ∀ h h' a, Others x.subscription x.history h → Does h c a h' →
      (next a).Ensures Meets Faithful post ({ x with history := h' }.note c a)) :
    (call c next).Ensures Meets Faithful post x := by
  refine ⟨hx, ?_⟩
  rintro a y ⟨h, h', hothers, hdoes, rfl⟩
  exact hnext h h' a hothers hdoes

end

/-- A list that is handed on is the next that is due. -/
theorem ensures_handOn {manifests : List Manifest} {next : Program watcherCalls (Option Watching)}
    {post : Option Watching → Watcher → Prop} (hx : Steady x [manifests])
    (hconnected : Connected host x id)
    (hnext : ∀ y, Steady y [] → Connected host y id → next.Ensures Meets Faithful post y)
    (hend : ∀ y, post none y) :
    (Watching.handOn id manifests next).Ensures Meets Faithful post x := by
  refine ensures_meets hx.faithful ?_
  intro h h' taken hothers hdoes
  cases hdoes with
  | sent _ taken =>
    have hsteady := hx.others hothers
    have hconnected := hconnected.others hothers
    cases taken with
    | true =>
      refine hnext _ ⟨hsteady.sound, ?_⟩ hconnected
      rw [List.append_nil]
      exact hsteady.sent
    | false =>
      refine ensures_meets hsteady.faithful ?_
      intro h h' a hothers hdoes
      cases hdoes
      exact ⟨hsteady.faithful, hend _⟩

theorem ensures_follow (hx : Steady x []) (hconnected : Connected s.hostname x id) :
    (Watching.follow s id).Ensures Meets Faithful (fun next y => ∀ stage, next = some stage →
      Ready s stage y) x := by
  refine ensures_meets hx.faithful ?_
  intro h h' moment hothers hdoes
  cases hdoes
  refine ⟨(hx.others hothers).faithful, ?_⟩
  rintro stage ⟨⟩
  refine ⟨hx.others hothers, ?_⟩
  rintro id limit ⟨⟩
  exact hconnected.others hothers

/-- Going back to subscribing needs no connection. -/
theorem ensures_subscribing {c : WatcherCall} {answered : Bool}
    (hquiet : ∀ (x : Watcher) a, x.note c a = x) (hx : Steady x []) :
    (call (I := watcherCalls) c fun _ => done (some (Watching.subscribing answered))).Ensures Meets
      Faithful (fun next y => ∀ stage, next = some stage → Ready s stage y) x := by
  refine ensures_meets hx.faithful ?_
  intro h h' a hothers hdoes
  have hsteady := hx.met hothers hdoes
  rw [hquiet]
  refine ⟨hsteady.faithful, ?_⟩
  rintro stage ⟨⟩
  exact ⟨hsteady, nofun⟩

/-! ### Reading -/

/-- A reading fails, or tells what is there at that moment. -/
theorem Does.get {key : String} {a : Except Error Node} (hdoes : Does h (.store (.get key)) a h') :
    (∃ e, a = .error e ∧ e.isNotFound = false) ∨
      (a = .error (.keyNotFound key) ∧ h'.store.contents.kept? key = none) ∨
        ∃ e, a = .ok (e.toNode key) ∧ h'.store.contents.kept? key = some e := by
  cases hdoes with
  | performed now =>
    have hget := h.store.perform_get now key
    have hafter : (h.after (.call now (.get key))).store = (h.store.perform now (.get key)).2 := rfl
    rw [hafter]
    cases hkept : (h.store.perform now (.get key)).2.contents.kept? key with
    | none =>
      rw [hkept] at hget
      exact .inr (.inl ⟨hget, rfl⟩)
    | some e =>
      rw [hkept] at hget
      exact .inr (.inr ⟨e, hget, rfl⟩)
  | failed _ e he => exact .inl ⟨e, rfl, he⟩

/-- What is read is there, and whatever is changed after the subscription was opened is still to
come. -/
theorem informed_of_read {r : Reader} {sub : Subscription} (hsound : h.Sound)
    (hhas : h.Has id r sub) (hnone : r.received = []) (heard : List (Option String)) :
    Informed h.log r (heard ++ [(h.store.contents.kept? r.watched).map (·.value)]) := by
  refine ⟨h.log, List.prefix_rfl, (hsound.follows id r sub hhas).opened, ?_⟩
  rw [List.getLast?_concat, hnone, hsound.evolved.lastLeft_eq]
  rfl

/-- The key of a manifest list does not end in a slash, so that nothing is cut from it. -/
theorem watched_manifests {r : Reader} (hkey : r.key = Keys.manifests host) :
    r.watched = Keys.manifests host := by
  have hlast : (Keys.manifests host).toList.getLast? ≠ some '/' := by
    rw [Keys.toList_manifests, List.getLast?_append, List.getLast?_append, List.getLast?_cons]
    simp [Keys.manifestsPart]
  rw [Reader.watched, hkey, trimEnd_eq_self hlast, String.ofList_toList]

/-- The reading behind a subscription that was just opened. -/
theorem ensures_read (hx : Steady x []) (hown : x.subscription = some id)
    (hanswered : x.answered = false) {r : Reader} {sub : Subscription}
    (hhas : x.history.Has id r sub) (hkey : r.key = Keys.manifests host)
    (hrecursive : r.recursive = false) (hnone : r.received = []) :
    ((manifests host).run.expand fun c => ask (I := watcherCalls) (.store c)).Ensures Meets Faithful
      (fun read y => Steady y read.toOption.toList ∧ Connected host y id) x := by
  have hstore : ∀ (c : StoreCall) (inv : Watcher → Prop)
      (post : storeCalls.Answer c → Watcher → Prop) (x : Watcher),
      (ask (I := watcherCalls) (.store c)).Ensures Meets inv post x ↔
        inv x ∧ ∀ a y, Meets (.store c) x a y → inv y ∧ post a y := fun _ _ _ _ => Iff.rfl
  refine (Program.ensures_expand hstore).mpr ?_
  refine Work.ensures_bind.mpr (Work.ensures_orNone.mpr ?_)
  refine (Program.ensures_ask (I := storeCalls) (c := StoreCall.get _)).mpr ⟨hx.faithful, ?_⟩
  rintro a y ⟨h, h', hothers, hdoes, rfl⟩
  have hothers := hothers.store hdoes
  have hsound := hothers.sound hx.sound
  rw [hown] at hothers
  obtain ⟨⟨sub', hhas'⟩, -⟩ := hothers.has hhas
  have hinformed := informed_of_read hsound hhas' hnone x.heard
  rw [watched_manifests hkey] at hinformed
  rcases Does.get hdoes with ⟨e, rfl, he⟩ | ⟨rfl, hkept⟩ | ⟨e, rfl, hkept⟩
  · -- the reading failed, and the watcher was told nothing
    have hsteady : Steady { x with history := h' } [] := ⟨hsound, hx.sent⟩
    simp only [note, Work.noneIfAbsent, he]
    exact ⟨hsteady.faithful, hsteady, hown, r, sub', hhas', hkey, hrecursive,
      fun hyes => absurd (hanswered.symm.trans hyes) Bool.false_ne_true⟩
  · have hsteady := hx.hear hsound none true
    rw [hkept] at hinformed
    exact ⟨hsteady.faithful, hsteady.faithful, hsteady, hown, r, sub', hhas', hkey, hrecursive,
      fun _ => hinformed⟩
  · have hsteady := hx.hear hsound (some e.value) (listed? (some e.value)).isSome
    rw [hkept] at hinformed
    exact ⟨hsteady.faithful, hsteady.faithful, hsteady, hown, r, sub', hhas', hkey, hrecursive,
      fun _ => hinformed⟩

/-! ### A round -/

/-- What is done about a change is what its value says. -/
theorem classify_some (x : Change) :
    classify (some x) = (listed? x.left).elim .skip .deliver := by
  rw [classify, Change.left]
  cases x.action.isRemoval with
  | true => rfl
  | false =>
    simp only [Bool.false_eq_true, if_false, listed?]
    cases Manifest.decodeList x.node.value <;> rfl

/-- The rest of the round of a watcher that has received a change. -/
def heed (id : WatchId) (limit : Moment) : WatchStep → Program watcherCalls (Option Watching)
  | .deliver manifests => Watching.handOn id manifests (done (some (.following id limit)))
  | .skip => done (some (.following id limit))
  | .reconnect => done (some (.subscribing true))

/-- What is received has been heard, and nothing that stands behind it. -/
theorem Connected.receive (hx : Connected host x id)
    (hothers : Others x.subscription x.history h) {change : Change}
    (hchange : (h.store.modifyFeed id Feed.receive).1 = .item change) :
    Connected host { x with
      history := h.after (.receive id), heard := x.heard ++ [change.left] } id := by
  obtain ⟨hown, r, sub, hhas, hkey, hrecursive, hinformed⟩ := hx.others hothers
  obtain ⟨sub', hhas'⟩ := History.has_received hhas hchange
  refine ⟨hown, _, sub', hhas', hkey, hrecursive, fun hanswered => ?_⟩
  exact ((hinformed hanswered).later (log_prefix_after h _)).receive change

theorem ensures_round_subscribing {answered : Bool} (hx : Steady x []) :
    ((Watching.subscribing answered).round s).Ensures Meets Faithful (fun next y =>
      ∀ stage, next = some stage → Ready s stage y) x := by
  refine ensures_meets hx.faithful ?_
  intro h h' opened hothers hdoes
  have hmet := hx.met hothers hdoes
  cases hdoes with
  | failed _ e he => exact ensures_subscribing (fun _ _ => rfl) hmet
  | performed now =>
    have hopened :=
      History.has_opened (hothers.sound hx.sound) now (Keys.manifests s.hostname) false
    rw [(hothers.sound hx.sound).length] at hopened
    set y : Watcher := { x with
      history := h.after (.call now (.watch (Keys.manifests s.hostname) false))
      subscription := some h.store.subscriptions.length
      answered := false }
    have hsteady : Steady y [] := ⟨hmet.sound, hmet.sent⟩
    have hread := ensures_read hsteady rfl rfl hopened rfl rfl rfl
    refine hread.bind fun read z _ hz => ?_
    obtain ⟨hz, hconnected⟩ := hz
    cases read with
    | ok manifests =>
      exact ensures_handOn hz hconnected (fun y hy hconnected => ensures_follow hy hconnected)
        fun _ _ => nofun
    | error e =>
      cases answered with
      | true => exact ensures_follow hz hconnected
      | false =>
        -- the subscription is left, and the store is tried again later
        refine ensures_meets hz.faithful ?_
        intro h h' a hothers hdoes
        exact ensures_subscribing (fun _ _ => rfl) (hz.met hothers hdoes)

theorem ensures_round_following {limit : Moment} (hx : Steady x [])
    (hconnected : Connected s.hostname x id) :
    ((Watching.following id limit).round s).Ensures Meets Faithful (fun next y =>
      ∀ stage, next = some stage → Ready s stage y) x := by
  refine ensures_meets hx.faithful ?_
  intro h h' found hothers hdoes
  have hmet := hx.met hothers hdoes
  cases hdoes with
  | lapsed => exact ensures_subscribing (fun _ _ => rfl) hmet
  | received =>
    cases hfound : (h.store.modifyFeed id Feed.receive).1 with
    | nothing => exact ensures_subscribing (fun _ _ => rfl) hmet
    | ended =>
      refine ⟨hmet.faithful, ?_⟩
      rintro stage ⟨⟩
      exact ⟨hmet, nofun⟩
    | item change =>
      have hsteady := hx.hear hmet.sound change.left x.answered
      have hconnected := hconnected.receive hothers hfound
      have hready : ∀ y, Steady y [] → Connected s.hostname y id →
          (done (some (Watching.following id limit)) : Program watcherCalls _).Ensures Meets
            Faithful (fun next y => ∀ stage, next = some stage → Ready s stage y) y := by
        intro y hy hyconnected
        refine ⟨hy.faithful, ?_⟩
        rintro stage ⟨⟩
        refine ⟨hy, ?_⟩
        rintro id limit ⟨⟩
        exact hyconnected
      show (heed id limit (classify (some change))).Ensures Meets Faithful _ _
      rw [classify_some]
      cases hlist : listed? change.left with
      | none =>
        rw [hlist] at hsteady
        exact hready _ hsteady hconnected
      | some manifests =>
        rw [hlist] at hsteady
        exact ensures_handOn hsteady hconnected hready fun _ _ => nofun

/-- **A round keeps what holds between rounds.** One case for each stage, and in each for what is
answered. -/
theorem ensures_round {stage : Watching} (hx : Ready s stage x) :
    (stage.round s).Ensures Meets Faithful (fun next y => ∀ stage', next = some stage' →
      Ready s stage' y) x := by
  cases stage with
  | subscribing answered => exact ensures_round_subscribing hx.1
  | following id limit => exact ensures_round_following hx.1 (hx.2 id limit rfl)

theorem Reachable.ready {stage : Watching} (hx : Reachable s stage x) : Ready s stage x := by
  induction hx with
  | start => exact ⟨⟨History.sound_start, rfl⟩, nofun⟩
  | others _ hothers ih =>
    exact ⟨ih.1.others hothers, fun id limit hstage => (ih.2 id limit hstage).others hothers⟩
  | round _ hrun ih => exact (ensures_round ih).post_of_reaches hrun _ rfl

/-- With nothing to come, what was heard last is what is there. -/
theorem Connected.current (hx : Connected host x id) (hsteady : Steady x due)
    (hanswered : x.answered = true) (hlive : (x.history.store.feed id).isLive = true)
    (hnone : (x.history.store.feed id).pending = []) :
    x.heard.getLast? =
      some ((x.history.store.contents.kept? (Keys.manifests host)).map (·.value)) := by
  obtain ⟨-, r, sub, hhas, hkey, hrecursive, hinformed⟩ := hx
  rw [hhas.feed] at hlive hnone
  rw [(hinformed hanswered).current (hsteady.sound.follows id r sub hhas) hrecursive hlive hnone,
    hsteady.sound.evolved.lastLeft_eq, watched_manifests hkey]

theorem listed?_of_manifestsOn {c : Contents} {list : List Manifest}
    (h : manifestsOn c host = .ok list) :
    listed? ((c.kept? (Keys.manifests host)).map (·.value)) = some list := by
  rw [manifestsOn] at h
  cases hkept : c.kept? (Keys.manifests host) with
  | none =>
    rw [hkept] at h
    rw [← Except.ok.inj h]
    rfl
  | some e =>
    rw [hkept] at h
    show (Manifest.decodeList e.value).toOption = some list
    rw [show Manifest.decodeList e.value = .ok list from h]
    rfl

/-- **A watcher misses no update.** While it waits on a subscription that is live and has nothing
buffered, and whose reading has succeeded, the last list that was taken from it is the one that the
store has, if that can be read. And whatever happens, in every state of a round, only lists are
handed on that a value stood for which the watcher was told of. -/
theorem hands_on_current {stage : Watching} (hx : Reachable s stage x) :
    (∀ id limit, stage = .following id limit → (x.history.store.feed id).isLive = true →
      (x.history.store.feed id).pending = [] → x.answered = true →
        ∀ list, manifestsOn x.history.store.contents s.hostname = .ok list →
          x.sent.getLast? = some list) ∧
      x.sent = x.heard.filterMap listed? ∧
        ∀ q y, Reaches Meets (stage.round s) x q y → y.sent <+: y.heard.filterMap listed? := by
  obtain ⟨hsteady, hconnected⟩ := hx.ready
  have hsent : x.sent = x.heard.filterMap listed? := by
    rw [hsteady.sent, List.append_nil]
  refine ⟨?_, hsent, ?_⟩
  · intro id limit hstage hlive hnone hanswered list hlist
    have hlast := (hconnected id limit hstage).current hsteady hanswered hlive hnone
    obtain ⟨heard, hheard⟩ := List.getLast?_eq_some_iff.mp hlast
    rw [hsent, hheard, List.filterMap_append,
      List.filterMap_cons_some (listed?_of_manifestsOn hlist)]
    exact List.getLast?_concat
  · intro q y hrun
    exact (ensures_round hx.ready).invariant_of_reaches hrun

/-! ### A run -/

/-- A call that is carried out at the first moment. -/
def carryOut (h : History) : (c : WatcherCall) → c.Answer × History
  | .store c => ((h.store.perform 0 c).1, h.after (.call 0 c))
  | .send _ => (true, h)
  | .wait _ => ((), h)
  | .ahead d => (d.toNanos, h)
  | .receive id _ => ((h.store.modifyFeed id Feed.receive).1, h.after (.receive id))
  | .stop id => ((), h.after (.leave id))

/-- A call with which nobody interferes. -/
def alone (c : WatcherCall) (x : Watcher) : c.Answer × Watcher :=
  ((carryOut x.history c).1,
    { x with history := (carryOut x.history c).2 }.note c (carryOut x.history c).1)

theorem meets_alone (c : WatcherCall) (x : Watcher) : Meets c x (alone c x).1 (alone c x).2 := by
  refine ⟨x.history, _, .none, ?_, rfl⟩
  cases c with
  | store c => exact .performed 0 c
  | send manifests => exact .sent manifests true
  | wait d => exact .waited d
  | ahead d => exact .looked d _
  | receive id limit => exact .received id limit
  | stop id => exact .stopped id

theorem Reachable.alone (stage : Watching) {next : Watching} (hx : Reachable s stage x)
    (hnext : ((stage.round s).run Watcher.alone x).1 = some next) :
    Reachable s next ((stage.round s).run Watcher.alone x).2 := by
  have hrun := Reaches.of_run meets_alone (stage.round s) x
  rw [hnext] at hrun
  exact hx.round hrun

/-- Somebody writes the manifest list of a host. -/
def writes (host value : String) (x : Watcher) : Watcher :=
  { x with history := x.history.after (.call 0 (.set (Keys.manifests host) value none)) }

theorem Reachable.writes {stage : Watching} (hx : Reachable s stage x) (host value : String) :
    Reachable s stage (writes host value x) :=
  hx.others (.move .none fun _ _ => ⟨nofun, nofun⟩)

/-- One round with which nobody interferes. -/
def attend (host : String) (stage : Watching) (x : Watcher) : Watcher :=
  ((stage.round { hostname := host }).run Watcher.alone x).2

/-- A watcher that first finds a list that cannot be read, then reads another, and is then told of a
list that cannot be read and of one that can. -/
def rewritten : Watcher :=
  let tried := attend "h1" .start (writes "h1" "[" {})
  let begun := attend "h1" .start (writes "h1" (Manifest.encodeList [{ id := "m1" }]) tried)
  let behind := writes "h1" (Manifest.encodeList [{ id := "m2" }]) (writes "h1" "[" begun)
  attend "h1" (.following 1 30000000000) (attend "h1" (.following 1 30000000000) behind)

theorem reachable_rewritten :
    Reachable { hostname := "h1" } (.following 1 30000000000) rewritten := by
  refine Reachable.alone (.following 1 30000000000) ?_ (by decide +kernel)
  refine Reachable.alone (.following 1 30000000000) ?_ (by decide +kernel)
  refine (Reachable.writes ?_ "h1" "[").writes "h1" (Manifest.encodeList [{ id := "m2" }])
  refine Reachable.alone .start ?_ (by decide +kernel)
  refine Reachable.writes ?_ "h1" (Manifest.encodeList [{ id := "m1" }])
  refine Reachable.alone .start ?_ (by decide +kernel)
  exact Reachable.start.writes "h1" "["

theorem hands_on_current_rewritten :
    rewritten.heard.length = 4 ∧ rewritten.sent.length = 2 ∧
      rewritten.sent.getLast? = some [{ id := "m2" }] := by
  have hend : rewritten.heard.length = 4 ∧ rewritten.sent.length = 2 ∧
      (rewritten.history.store.feed 1).isLive = true ∧
      (rewritten.history.store.feed 1).pending = [] ∧ rewritten.answered = true ∧
      manifestsOn rewritten.history.store.contents "h1" = .ok [{ id := "m2" }] := by
    decide +kernel
  obtain ⟨hheard, hsent, hlive, hnone, hanswered, hlist⟩ := hend
  exact ⟨hheard, hsent,
    (hands_on_current reachable_rewritten).1 1 30000000000 rfl hlive hnone hanswered _ hlist⟩

end Watcher

end ControlPlane.Node
