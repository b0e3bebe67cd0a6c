import ControlPlane.Proofs.Node.Keeping
import ControlPlane.Proofs.Program.Exchanges

/-!
# Failures inside a pass stay local

Every call of a pass may fail, and the pass has a policy for each: a pair that cannot be looked up
is skipped, a container that cannot be brought up claims its name all the same, the last container
that cannot be stopped is reported, and an event that cannot be recorded is forgotten. None of them
keeps the pass from its other work.

An `Account` tells the exchanges of a pass part by part: one part for each pair of the list, in
order, then the listing, then one part for each container that is stopped. What a part looks like
depends on the answers in it and on nothing before it. That every pass has such an account is
`tells_pass_account`; what follows from having one is shown of accounts alone.

The engine is not modelled here. It may give any answer to any call, so an assumption on it is
needed in one place only: that what was created is listed under its name, with a slash in front.

## Main definitions

* `LookedUp`, `BroughtUp`, `Attempted`: the exchanges for one pair of the list
* `Stopped`: the exchanges for one container that is stopped
* `Account`: the exchanges of a pass

## Main results

* `tells_pass_account`: every pass has an account, whatever is answered
* `pass_contains_failures`: what it makes of the failures
-/

namespace ControlPlane.Node

open ContainerName Program

/-- Exchanges of a node agent, oldest first. -/
abbrev NodeLog := List (Exchange nodeCalls)

/-- A call of the engine with its answer, whichever it is. -/
def told (c : Engine.Call) (answer : Except Error c.Result) : Exchange nodeCalls :=
  ⟨.engine c, answer⟩

/-! ### The parts of a pass -/

/-- Inspecting containers one after the other, up to the first that is running or cannot be
inspected. -/
inductive Searched : List Engine.Summary → NodeLog → Except Error (Option String) → Prop
  | unmatched : Searched [] [] (.ok none)
  | found (c : Engine.Summary) (rest : List Engine.Summary) (details : Engine.Details)
      (h : details.running = true) :
      Searched (c :: rest) [told (.inspect c.id) (.ok details)]
        (.ok (some (canonical details.name)))
  | unseen (c : Engine.Summary) (rest : List Engine.Summary) (err : Error) :
      Searched (c :: rest) [told (.inspect c.id) (.error err)] (.error err)
  | ended (c : Engine.Summary) {rest : List Engine.Summary} (details : Engine.Details)
      (h : details.running = false) {log : NodeLog} {r : Except Error (Option String)} :
      Searched rest log r →
        Searched (c :: rest) (told (.inspect c.id) (.ok details) :: log) r

/-- Looking a pair up: all containers are listed, and those of the pair inspected. -/
inductive LookedUp (p : Identity) : NodeLog → Except Error (Option String) → Prop
  | unlisted (err : Error) : LookedUp p [told .list (.error err)] (.error err)
  | listed (summaries : List Engine.Summary) {log : NodeLog} {r : Except Error (Option String)} :
      Searched (summaries.filter fun c => served c = p) log r →
        LookedUp p (told .list (.ok summaries) :: log) r

/-- Bringing a container up: one pull, under the lock, one creation if the image was pulled, and one
start if the container was created. -/
inductive BroughtUp (s : NodeSettings) (c : Container) (name : String) : NodeLog → Prop
  | unpulled (err : Error) :
      BroughtUp s c name
        [⟨.acquire, ()⟩, told (.pull c.image) (.error err), ⟨.release, ()⟩]
  | uncreated (err : Error) :
      BroughtUp s c name
        [⟨.acquire, ()⟩, told (.pull c.image) (.ok ()), ⟨.release, ()⟩,
          told (.create (.ofContainer c name s.volumeRoot)) (.error err)]
  | created (id : String) (started : Except Error Unit) :
      BroughtUp s c name
        [⟨.acquire, ()⟩, told (.pull c.image) (.ok ()), ⟨.release, ()⟩,
          told (.create (.ofContainer c name s.volumeRoot)) (.ok id), told (.start id) started]

/-- The exchanges for a pair of the list, with the name that it claims. -/
inductive Attempted (s : NodeSettings) (w : String × Container) : NodeLog → Option String → Prop
  /-- A container of the pair is running. -/
  | kept {log : NodeLog} {name : String} :
      LookedUp (pair w) log (.ok (some name)) → Attempted s w log (some name)
  /-- It cannot be told what is running. -/
  | skipped {log : NodeLog} {err : Error} :
      LookedUp (pair w) log (.error err) → Attempted s w log none
  /-- No container of the pair is running. -/
  | launched {log log' : NodeLog} (suffix : UInt32) :
      LookedUp (pair w) log (.ok none) →
      BroughtUp s w.2 (build w.1 w.2.name suffix) log' →
        Attempted s w (log ++ ⟨.suffix, suffix⟩ :: log') (some (build w.1 w.2.name suffix))

/-- The exchanges for a container that is stopped, with what became of the stop. There is one stop,
which has the grace period of the settings, and whatever becomes of it there is one attempt to
append an event to those of the container. The event tells a stop, and for what the container was
run as far as its name says so; it is kept as long as the settings ask for. -/
inductive Stopped (s : NodeSettings) (c : Engine.Summary) : NodeLog → Except Error Unit → Prop
  | mk (stopped : Except Error Unit) (timestamp : Int64)
      (recorded : Except Error ControlPlane.Node) :
      Stopped s c
        [told (.stop c.id s.stopGracePeriod) stopped, ⟨.timestamp, timestamp⟩,
          ⟨.store (.addChild ("/events/" ++ (identity c.name).container)
            (Event.encode
              { event := "STOP"
                manifest := (identity c.name).manifest
                container := (identity c.name).container
                timestamp := timestamp })
            s.eventTtl), recorded⟩]
        stopped

/-- The last failure of some attempts, if there is one. -/
def lastFailure (outcomes : List (Except Error Unit)) : Except Error Unit :=
  (outcomes.reverse.find? fun r => !r.isOk).getD (.ok ())

/-- An account of a pass: the parts for the pairs of the list, each with the name that is claimed,
the answer to the listing, and the parts for the containers that are stopped. -/
structure Account where
  attempts : List (NodeLog × Option String)
  listed : Except Error (List Engine.Summary)
  stops : List (NodeLog × Except Error Unit)

namespace Account

/-- The names that are claimed, of which an attempt that could not tell what runs has none. -/
def claimed (a : Account) : List String := a.attempts.flatMap fun x => x.2.toList

/-- The listed containers whose names are not claimed; none if they cannot be listed. -/
def unclaimed (a : Account) : List Engine.Summary :=
  match a.listed with
  | .ok summaries => summaries.filter fun c => !a.claimed.contains (canonical c.name)
  | .error _ => []

/-- All exchanges, in order: the attempts, the one listing behind them, and what is done about the
others. -/
def log (a : Account) : NodeLog :=
  a.attempts.flatMap Prod.fst ++ told .list a.listed :: a.stops.flatMap Prod.fst

/-- The failure of the listing, or else the last failure of a stop. -/
def result (a : Account) : Except Error Unit :=
  match a.listed with
  | .ok _ => lastFailure (a.stops.map Prod.snd)
  | .error err => .error err

/-- The account is one of a pass for these manifests: there is one part for each container that one
of them declares, in the order of the declarations and with repetitions, and one for each listed
container whose name is not claimed. -/
structure Of (a : Account) (s : NodeSettings) (manifests : List Manifest) : Prop where
  attempted : List.Forall₂ (fun w x => Attempted s w x.1 x.2)
    (manifests.flatMap fun m => m.containers.map fun c => (m.id, c)) a.attempts
  stopped : List.Forall₂ (fun c x => Stopped s c x.1 x.2) a.unclaimed a.stops

end Account

/-! ### The exchanges of a pass, part by part -/

theorem tells_running? (p : Identity) (summaries : List Engine.Summary) :
    (running? p summaries).run.Tells fun r log =>
      Searched (summaries.filter fun c => served c = p) log r := by
  induction summaries with
  | nil => exact .unmatched
  | cons c summaries ih =>
    rw [running?]
    by_cases hc : identity c.name = p
    · have hfilter : (c :: summaries).filter (fun c => served c = p) =
          c :: summaries.filter fun c => served c = p :=
        List.filter_cons_of_pos (decide_eq_true hc)
      rw [if_pos hc, hfilter]
      refine Work.tells_bind.mpr ?_
      rintro (err | details)
      · exact .unseen c _ err
      change (ite _ _ _ : NodeWork _).run.Tells _
      split
      · next h => exact .found c _ details h
      · next h => exact ih.mono fun r log hlog => .ended c details (by simpa using h) hlog
    · have hfilter : (c :: summaries).filter (fun c => served c = p) =
          summaries.filter fun c => served c = p :=
        List.filter_cons_of_neg fun h => hc (of_decide_eq_true h)
      rw [if_neg hc, hfilter]
      exact ih

theorem tells_lookup (p : Identity) : (lookup p).run.Tells fun r log => LookedUp p log r := by
  refine Work.tells_bind.mpr ?_
  rintro (err | summaries)
  · exact .unlisted err
  · exact (tells_running? p summaries).mono fun r log h => .listed summaries h

theorem tells_launch (s : NodeSettings) (c : Container) (name : String) :
    (launch s c name).run.Tells fun _ log => BroughtUp s c name log := by
  refine Work.tells_bind.mpr ?_
  rintro _ (err | _) _
  · exact .unpulled err
  refine Work.tells_bind.mpr ?_
  rintro (err | id)
  · exact .uncreated err
  · exact fun started => .created id started

theorem tells_claim (s : NodeSettings) (manifest : String) (c : Container) :
    (claim s manifest c).Tells fun name log => Attempted s (manifest, c) log name := by
  refine Tells.bind (tells_lookup ⟨manifest, c.name⟩) ?_
  rintro (err | _ | name) log hlog
  · change Attempted s (manifest, c) (log ++ []) none
    rw [List.append_nil]
    exact .skipped hlog
  · refine tells_bind.mpr (tells_ask.mpr fun suffix => ?_)
    refine tells_bind.mpr ((tells_launch s c _).mono fun _ log' hlog' => ?_)
    change Attempted s (manifest, c) (log ++ ⟨.suffix, suffix⟩ :: (log' ++ [])) _
    rw [List.append_nil]
    exact .launched suffix hlog hlog'
  · change Attempted s (manifest, c) (log ++ []) (some name)
    rw [List.append_nil]
    exact .kept hlog

/-- One part for each pair, in order, whatever became of the pairs before it. -/
theorem tells_claims (s : NodeSettings) (ws : List (String × Container)) :
    (claims s ws).Tells fun names log => ∃ attempts : List (NodeLog × Option String),
      List.Forall₂ (fun w x => Attempted s w x.1 x.2) ws attempts ∧
      log = attempts.flatMap Prod.fst ∧ names = attempts.flatMap fun x => x.2.toList := by
  induction ws with
  | nil => exact ⟨[], .nil, rfl, rfl⟩
  | cons w ws ih =>
    refine Tells.bind (tells_claim s w.1 w.2) fun name log hlog => ?_
    refine tells_bind.mpr (ih.mono ?_)
    rintro _ _ ⟨attempts, hattempts, rfl, rfl⟩
    refine ⟨(log, name) :: attempts, .cons hlog hattempts, ?_, rfl⟩
    simp

theorem tells_kill (s : NodeSettings) (c : Engine.Summary) :
    (kill s c).Tells fun stopped log => Stopped s c log stopped := by
  intro stopped timestamp recorded
  cases recorded with
  | ok node => exact .mk stopped timestamp (.ok node)
  | error err => exact .mk stopped timestamp (.error err)

/-- The last failure of all is that of the others, if there is one. -/
theorem lastFailure_cons (first : Except Error Unit) (others : List (Except Error Unit)) :
    lastFailure (first :: others) =
      if (lastFailure others).isOk then first else lastFailure others := by
  rw [lastFailure, lastFailure, List.reverse_cons, List.find?_append]
  cases hlast : others.reverse.find? fun r => !r.isOk with
  | none =>
    cases first with
    | ok _ => rfl
    | error err => rfl
  | some last =>
    have hfailed : last.isOk = false := by simpa using List.find?_some hlast
    rw [Option.some_or, Option.getD_some, hfailed]
    rfl

theorem lastFailure_eq_ok_iff {outcomes : List (Except Error Unit)} :
    lastFailure outcomes = .ok () ↔ ∀ r ∈ outcomes, r = .ok () := by
  induction outcomes with
  | nil => exact ⟨fun _ => nofun, fun _ => rfl⟩
  | cons first others ih =>
    rw [lastFailure_cons, List.forall_mem_cons, ← ih]
    cases lastFailure others with
    | ok _ => simp [Except.isOk, Except.toBool]
    | error err => simp [Except.isOk, Except.toBool]

example : lastFailure [.error (.engine "a"), .ok (), .error (.engine "b"), .ok ()] =
    .error (.engine "b") := rfl

/-- One part for each container, in order, and the last failure. -/
theorem tells_killEach (s : NodeSettings) (summaries : List Engine.Summary) :
    (killEach s summaries).run.Tells fun r log => ∃ stops : List (NodeLog × Except Error Unit),
      List.Forall₂ (fun c x => Stopped s c x.1 x.2) summaries stops ∧
      log = stops.flatMap Prod.fst ∧ r = lastFailure (stops.map Prod.snd) := by
  induction summaries with
  | nil => exact ⟨[], .nil, rfl, rfl⟩
  | cons c summaries ih =>
    refine Tells.bind (tells_kill s c) fun first log hlog => ?_
    refine tells_bind.mpr (ih.mono ?_)
    rintro _ _ ⟨stops, hstops, rfl, rfl⟩
    refine ⟨(log, first) :: stops, .cons hlog hstops, ?_, ?_⟩
    · simp
    · exact (lastFailure_cons first _).symm

/-- **Every pass has an account,** whatever is answered. All else that is said about failures is
read off the account. -/
theorem tells_pass_account (s : NodeSettings) (manifests : List Manifest) :
    (pass s manifests).run.Tells fun r log => ∃ a : Account,
      a.Of s manifests ∧ log = a.log ∧ r = a.result := by
  refine Work.tells_bind.mpr (Work.tells_lift.mpr ((tells_claims s (wanted manifests)).mono ?_))
  rintro _ _ ⟨attempts, hattempts, rfl, rfl⟩
  refine Work.tells_bind.mpr ?_
  rintro (err | summaries)
  · exact ⟨⟨attempts, .error err, []⟩, ⟨hattempts, .nil⟩, rfl, rfl⟩
  · refine (tells_killEach s _).mono ?_
    rintro _ _ ⟨stops, hstops, rfl, rfl⟩
    exact ⟨⟨attempts, .ok summaries, stops⟩, ⟨hattempts, hstops⟩, rfl, rfl⟩

/-! ### What follows from an account -/

theorem Searched.call_eq {summaries : List Engine.Summary} {log : NodeLog}
    {r : Except Error (Option String)} (h : Searched summaries log r) {x : Exchange nodeCalls}
    (hx : x ∈ log) : ∃ id, x.call = .engine (.inspect id) := by
  induction h with
  | unmatched => cases hx
  | found c rest details h =>
    obtain rfl := List.mem_singleton.mp hx
    exact ⟨c.id, rfl⟩
  | unseen c rest err =>
    obtain rfl := List.mem_singleton.mp hx
    exact ⟨c.id, rfl⟩
  | ended c details h hlog ih =>
    rcases List.mem_cons.mp hx with rfl | hx
    · exact ⟨c.id, rfl⟩
    · exact ih hx

theorem LookedUp.call_eq {p : Identity} {log : NodeLog} {r : Except Error (Option String)}
    (h : LookedUp p log r) {x : Exchange nodeCalls} (hx : x ∈ log) :
    x.call = .engine .list ∨ ∃ id, x.call = .engine (.inspect id) := by
  cases h with
  | unlisted err =>
    obtain rfl := List.mem_singleton.mp hx
    exact .inl rfl
  | listed summaries hsearched =>
    rcases List.mem_cons.mp hx with rfl | hx
    · exact .inl rfl
    · exact .inr (hsearched.call_eq hx)

section

variable {s : NodeSettings} {w : String × Container} {manifests : List Manifest}
  {c : Engine.Summary} {log : NodeLog} {name : Option String} {r : Except Error Unit}
  {x : Exchange nodeCalls} {a : Account}

/-- The calls that may be made for a pair that claims a name. -/
def MadeFor (s : NodeSettings) (w : String × Container) (name : Option String) : NodeCall → Prop
  | .engine (.pull image) => image = w.2.image
  | .engine (.create spec) => name = some spec.name ∧ spec = .ofContainer w.2 spec.name s.volumeRoot
  | .engine .ping | .engine (.stop _ _) | .store _ | .timestamp => False
  | .engine .list | .engine (.inspect _) | .engine (.start _)
  | .acquire | .release | .suffix => True

theorem BroughtUp.madeFor {name : String} (h : BroughtUp s w.2 name log) (hx : x ∈ log) :
    MadeFor s w (some name) x.call := by
  cases h with
  | unpulled err =>
    simp only [List.mem_cons, List.not_mem_nil, or_false] at hx
    rcases hx with rfl | rfl | rfl
    exacts [trivial, rfl, trivial]
  | uncreated err =>
    simp only [List.mem_cons, List.not_mem_nil, or_false] at hx
    rcases hx with rfl | rfl | rfl | rfl
    exacts [trivial, rfl, trivial, ⟨rfl, rfl⟩]
  | created id started =>
    simp only [List.mem_cons, List.not_mem_nil, or_false] at hx
    rcases hx with rfl | rfl | rfl | rfl | rfl
    exacts [trivial, rfl, trivial, ⟨rfl, rfl⟩, trivial]

theorem LookedUp.madeFor {found : Except Error (Option String)} (h : LookedUp (pair w) log found)
    (hx : x ∈ log) : MadeFor s w name x.call := by
  obtain hcall | ⟨id, hcall⟩ := h.call_eq hx
  · rw [hcall]
    trivial
  · rw [hcall]
    trivial

theorem Attempted.madeFor (h : Attempted s w log name) (hx : x ∈ log) :
    MadeFor s w name x.call := by
  cases h with
  | kept hlookup => exact hlookup.madeFor hx
  | skipped hlookup => exact hlookup.madeFor hx
  | launched suffix hlookup hup =>
    rcases List.mem_append.mp hx with hx | hx
    · exact hlookup.madeFor hx
    rcases List.mem_cons.mp hx with rfl | hx
    · trivial
    · exact hup.madeFor hx

/-- The calls that may be made for a container that is stopped. -/
def MadeAgainst (s : NodeSettings) (c : Engine.Summary) : NodeCall → Prop
  | .engine (.stop id grace) => id = c.id ∧ grace = s.stopGracePeriod
  | .store (.addChild dir _ ttl) =>
    dir = "/events/" ++ (identity c.name).container ∧ ttl = s.eventTtl
  | .timestamp => True
  | _ => False

theorem Stopped.madeAgainst (h : Stopped s c log r) (hx : x ∈ log) :
    MadeAgainst s c x.call := by
  obtain ⟨stopped, timestamp, recorded⟩ := h
  simp only [List.mem_cons, List.not_mem_nil, or_false] at hx
  rcases hx with rfl | rfl | rfl
  exacts [⟨rfl, rfl⟩, trivial, ⟨rfl, rfl⟩]

theorem exists_left_of_mem {α β : Type} {R : α → β → Prop} {as : List α} {bs : List β}
    (h : List.Forall₂ R as bs) {b : β} (hb : b ∈ bs) : ∃ a ∈ as, R a b := by
  induction h with
  | nil => cases hb
  | cons hR _ ih =>
    rcases List.mem_cons.mp hb with rfl | hb
    · exact ⟨_, List.mem_cons_self .., hR⟩
    · obtain ⟨a, ha, hR⟩ := ih hb
      exact ⟨a, List.mem_cons_of_mem _ ha, hR⟩

namespace Account

/-- Every call of a pass is made for a container that is declared, whose name is claimed, or is the
listing, or is made against a container whose name is not claimed. -/
theorem Of.call_cases (h : a.Of s manifests) (hx : x ∈ a.log) :
    (∃ m ∈ manifests, ∃ c ∈ m.containers, ∃ name, (∀ n, name = some n → n ∈ a.claimed) ∧
        MadeFor s (m.id, c) name x.call) ∨
      x = told .list a.listed ∨ ∃ c ∈ a.unclaimed, MadeAgainst s c x.call := by
  rcases List.mem_append.mp hx with hx | hx
  · obtain ⟨attempt, hattempt, hx⟩ := List.mem_flatMap.mp hx
    obtain ⟨w, hw, hattempted⟩ := exists_left_of_mem h.attempted hattempt
    obtain ⟨m, hm, hdeclared⟩ := List.mem_flatMap.mp hw
    obtain ⟨c, hc, rfl⟩ := List.mem_map.mp hdeclared
    refine .inl ⟨m, hm, c, hc, attempt.2, fun n hn => ?_, hattempted.madeFor hx⟩
    exact List.mem_flatMap.mpr ⟨attempt, hattempt, by rw [hn]; exact List.mem_singleton_self n⟩
  rcases List.mem_cons.mp hx with rfl | hx
  · exact .inr (.inl rfl)
  · obtain ⟨stop, hstop, hx⟩ := List.mem_flatMap.mp hx
    obtain ⟨c, hc, hstopped⟩ := exists_left_of_mem h.stopped hstop
    exact .inr (.inr ⟨c, hc, hstopped.madeAgainst hx⟩)

/-- **A creation claims its name,** whatever becomes of it. -/
theorem Of.claimed_of_creation (h : a.Of s manifests) {spec : ContainerSpec} (hx : x ∈ a.log)
    (hcall : x.call = .engine (.create spec)) : spec.name ∈ a.claimed := by
  obtain ⟨m, -, c, -, name, hclaimed, hmade⟩ | rfl | ⟨c, -, hmade⟩ := h.call_cases hx
  · rw [hcall] at hmade
    exact hclaimed _ hmade.1
  · cases hcall
  · rw [hcall] at hmade
    exact hmade.elim

theorem Of.unclaimed_of_stop (h : a.Of s manifests) {id : String} {grace : Span} (hx : x ∈ a.log)
    (hcall : x.call = .engine (.stop id grace)) : ∃ c ∈ a.unclaimed, c.id = id := by
  obtain ⟨m, -, c, -, name, -, hmade⟩ | rfl | ⟨c, hc, hmade⟩ := h.call_cases hx
  · rw [hcall] at hmade
    exact hmade.elim
  · cases hcall
  · rw [hcall] at hmade
    exact ⟨c, hc, hmade.1.symm⟩

theorem mem_unclaimed_iff : c ∈ a.unclaimed ↔
    ∃ summaries, a.listed = .ok summaries ∧ c ∈ summaries ∧ canonical c.name ∉ a.claimed := by
  cases hlisted : a.listed with
  | error err => simp [unclaimed, hlisted]
  | ok summaries => simp [unclaimed, hlisted]

theorem result_eq_ok_iff : a.result = .ok () ↔
    (∃ summaries, a.listed = .ok summaries) ∧ ∀ stop ∈ a.stops, stop.2 = .ok () := by
  cases hlisted : a.listed with
  | error err => simp [result, hlisted]
  | ok summaries =>
    have hstops : lastFailure (a.stops.map Prod.snd) = .ok () ↔
        ∀ stop ∈ a.stops, stop.2 = .ok () := lastFailure_eq_ok_iff.trans List.forall_mem_map
    simpa only [result, hlisted, Except.ok.injEq, exists_eq', true_and] using hstops

end Account

end

/-- **Failures stay local.** With any partner and from any state of it, a pass has an account: the
pairs of the list are attempted in order, each as the answers to its own calls have it, and then
each listed container whose name is not claimed is stopped and has its event recorded. The result is
the failure of the listing, or else the last failure of a stop; it tells success exactly if the
listing and all stops succeeded. Whatever was to be created has claimed its name, so a container
that was created is not stopped by the pass if the engine lists it under its name, with a slash in
front. -/
theorem pass_contains_failures {σ : Type} (handle : (c : NodeCall) → σ → c.Answer × σ)
    (s : NodeSettings) (manifests : List Manifest) (e : σ) :
    ∃ a : Account, a.Of s manifests ∧
      (pass s manifests).run.exchanges handle e = a.log ∧
      ((pass s manifests).run.run handle e).1 = a.result ∧
      (a.result = .ok () ↔
        (∃ summaries, a.listed = .ok summaries) ∧ ∀ stop ∈ a.stops, stop.2 = .ok ()) ∧
      (∀ spec answer, told (.create spec) answer ∈ a.log → spec.name ∈ a.claimed) ∧
      ∀ spec id, told (.create spec) (.ok id) ∈ a.log →
        (∀ summaries, a.listed = .ok summaries → ∀ c ∈ summaries, c.id = id →
          c.name = "/" ++ spec.name) →
        ∀ grace stopped, told (.stop id grace) stopped ∉ a.log := by
  obtain ⟨a, ha, hlog, hresult⟩ := (tells_pass_account s manifests).of_run handle e
  refine ⟨a, ha, hlog, hresult, Account.result_eq_ok_iff,
    fun spec answer hcreated => ha.claimed_of_creation hcreated rfl, ?_⟩
  intro spec id hcreated hlisting grace stopped hstopped
  obtain ⟨c, hc, hid⟩ := ha.unclaimed_of_stop hstopped rfl
  obtain ⟨summaries, hlisted, hmem, hunclaimed⟩ := Account.mem_unclaimed_iff.mp hc
  rw [hlisting summaries hlisted c hmem hid, canonical_slash] at hunclaimed
  exact hunclaimed (ha.claimed_of_creation hcreated rfl)

/-- The calls of some exchanges, without what was answered. -/
def callsOf (log : NodeLog) : List NodeCall := log.map Exchange.call

/-- The document of the event of a stop when Unix time begins, for names in which nothing has to be
escaped. -/
def stopText (manifest container : String) : String :=
  "\x7b\"event\":\"STOP\",\"manifest\":\x7b\"id\":\"" ++ manifest ++
    "\"\x7d,\"container\":\x7b\"name\":\"" ++ container ++ "\"\x7d,\"timestamp\":0\x7d"

/-- Two manifests. The second one declares its container twice, and an image of the first one does
not exist. -/
def mixedManifests : List Manifest :=
  [⟨"m1", [{ name := "web", image := "nginx" }, { name := "db", image := "missing" }]⟩,
    ⟨"m2", [{ name := "web", image := "nginx" }, { name := "web", image := "nginx" }]⟩]

/-- A bench with a container of the first manifest, one of a manifest that is gone, and one of no
manifest at all. -/
def mixedBench : Bench where
  engine.containers := [⟨"a", "/web--m1--1", true, true⟩, ⟨"b", "/old--m0--7", true, true⟩,
    ⟨"d", "/cron", true, true⟩]

/-- Answers like the bench, but one image cannot be fetched and one container cannot be stopped. -/
def stubborn (c : NodeCall) (b : Bench) : c.Answer × Bench :=
  match c with
  | .engine (.pull image) =>
    if image = "missing" then (.error (.engine "no such image"), b)
    else b.handle (.engine (.pull image))
  | .engine (.stop id grace) =>
    if id = "b" then (.error (.engine "does not stop"), b)
    else b.handle (.engine (.stop id grace))
  | c => b.handle c

/-- The pair that runs is let be, the image that does not exist costs its own container only, and
the second declaration finds what the first has started. Both containers that nobody claims are to
be stopped and have their events, though the first of them cannot be stopped; for that the pass
fails. -/
theorem pass_contains_failures_mixed :
    ∃ a : Account, a.Of {} mixedManifests ∧
      callsOf a.log =
        [.engine .list, .engine (.inspect "a"),
          .engine .list, .suffix, .acquire, .engine (.pull "missing"), .release,
          .engine .list, .suffix, .acquire, .engine (.pull "nginx"), .release,
          .engine (.create { name := "web--m2--1", image := "nginx" }), .engine (.start "c1"),
          .engine .list, .engine (.inspect "c1"),
          .engine .list,
          .engine (.stop "b" (.ofSeconds 10)), .timestamp,
          .store (.addChild "/events/old" (stopText "m0" "old") (.ofSeconds 172800)),
          .engine (.stop "d" (.ofSeconds 10)), .timestamp,
          .store (.addChild "/events/cron" (stopText "" "cron") (.ofSeconds 172800))] ∧
      a.result = .error (.engine "does not stop") := by
  obtain ⟨a, ha, hlog, hresult, -⟩ :=
    pass_contains_failures stubborn {} mixedManifests mixedBench
  refine ⟨a, ha, ?_, ?_⟩
  · rw [← hlog]
    decide +kernel
  · rw [← hresult]
    decide +kernel

end ControlPlane.Node
