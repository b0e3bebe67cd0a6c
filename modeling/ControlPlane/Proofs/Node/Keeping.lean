import ControlPlane.Proofs.Node.Convergence

/-!
# What a pass keeps when calls fail

The calls of an engine may fail at any moment, and a call that fails changes nothing. A pass goes on
all the same, so what it stops in its second half must not depend on what failed in its first.

For a pair that has a container the first half only looks the container up. If the lookup is
answered, the name of that container is claimed and the second half lets it be, whatever else fails:
other containers may not be fetched, created, started or stopped. So the first container of a pair
stands as long as the lookup is answered, which is `pass_keeps_first`.

A lookup that fails claims no name. The second half lists the engine anew, finds the container
unclaimed and stops it, although its manifest wants it. That the pair is served after the pass is
therefore not true for every pattern of failures; `pass_drops_wanted` is a pass that loses a
container to a single failure of the listing.

## Main definitions

* `falters`: the steps of an engine whose calls may fail

## Main results

* `pass_keeps_first`: a container that can be looked up keeps running
* `pass_drops_wanted`: a container that cannot be looked up once may be lost
-/

namespace ControlPlane.Node

open ContainerName Program

variable {σ : Type} {handle : (c : NodeCall) → σ → c.Answer × σ} {v : EngineView σ}
  {good : σ → Prop} {mayFail : Engine.Call → Prop} {p : Identity} {first : Engine.Summary} {e : σ}

/-- Whether an answer tells that a call, one of those that may fail, has failed. -/
def Refused (mayFail : Engine.Call → Prop) : (c : NodeCall) → c.Answer → Prop
  | .engine c, answer => mayFail c ∧ ∃ err, answer = .error err
  | _, _ => False

/-- The steps of an engine whose calls may fail. Every call either does what `handle` says or, if it
may fail, has no effect. -/
def falters (handle : (c : NodeCall) → σ → c.Answer × σ) (v : EngineView σ)
    (mayFail : Engine.Call → Prop) : nodeCalls.Steps σ :=
  fun c e answer e' => Accepts v c e ∧ handle c e = (answer, e') ∨ Refused mayFail c answer ∧ e' = e

/-- The lookup with which a claim begins: the name of the first container of a pair. -/
def lookup (q : Identity) : NodeWork (Option String) := do
  let summaries : List Engine.Summary ← onEngine .list
  running? q summaries

/-- A container is the first one of a pair. -/
structure Keeps (v : EngineView σ) (good : σ → Prop) (p : Identity) (first : Engine.Summary)
    (e : σ) : Prop where
  good : good e
  first : firstFor p (v.running e) = some first

/-- Stopping another container leaves the first one of a pair where it is. -/
theorem firstFor_filter_ne {running : List Engine.Summary} {c : Engine.Summary}
    (h : firstFor p running = some first) (hne : c ≠ first) :
    firstFor p (running.filter (· ≠ c)) = some first := by
  obtain ⟨hserved, before, after, rfl, hbefore⟩ := List.find?_eq_some_iff_append.mp h
  refine List.find?_eq_some_iff_append.mpr
    ⟨hserved, before.filter (· ≠ c), after.filter (· ≠ c), ?_, ?_⟩
  · simp [hne.symm]
  · exact fun x hx => hbefore x (List.mem_filter.mp hx).1

/-! ### Calls that may fail -/

/-- One call: what it leaves if it is answered, and if it fails. -/
theorem ensures_call_falters (works : Works handle v good) (he : Keeps v good p first e)
    (c : NodeCall) {post : c.Answer → σ → Prop}
    (hanswered : Accepts v c e → firstFor p (v.running (handle c e).2) = some first ∧
      post (handle c e).1 (handle c e).2)
    (hrefused : ∀ answer, Refused mayFail c answer → post answer e) :
    (ask (I := nodeCalls) c).Ensures (falters handle v mayFail) (Keeps v good p first) post e := by
  refine ensures_ask.mpr ⟨he, ?_⟩
  rintro answer e' (⟨haccepts, hhandle⟩ | ⟨hfailed, rfl⟩)
  · obtain ⟨hfirst, hpost⟩ := hanswered haccepts
    have hgood := works.stays he.good haccepts
    rw [hhandle] at hfirst hpost hgood
    exact ⟨⟨hgood, hfirst⟩, hpost⟩
  · exact ⟨he, hrefused answer hfailed⟩

/-- Calls that neither start nor stop anything, whether or not they fail. -/
theorem ensures_still (works : Works handle v good) (he : Keeps v good p first e) {c : NodeCall}
    (hmoves : moves c = false) :
    (ask (I := nodeCalls) c).Ensures (falters handle v mayFail) (Keeps v good p first)
      (fun answer e' => (answer = (handle c e).1 ∨ Refused mayFail c answer) ∧
        v.running e' = v.running e) e := by
  refine ensures_call_falters works he c (fun _ => ?_) fun answer h => ⟨.inr h, rfl⟩
  have hframe := works.frame he.good hmoves
  exact ⟨by rw [hframe, he.first], .inl rfl, hframe⟩

/-- Programs that neither start nor stop anything, as a whole. -/
theorem ensures_of_asks_still {α : Type} {q : Program nodeCalls α} {post : α → Prop}
    (works : Works handle v good) (he : Keeps v good p first e)
    (h : q.Asks (fun c => moves c = false) post) :
    q.Ensures (falters handle v mayFail) (Keeps v good p first)
      (fun a e' => post a ∧ v.running e' = v.running e) e := by
  induction q generalizing e with
  | done a => exact ⟨he, h, rfl⟩
  | call c next ih =>
    refine Ensures.bind (p := ask (I := nodeCalls) c) (ensures_still works he h.1) ?_
    rintro answer e' he' ⟨-, hrunning⟩
    refine (ih answer he' (h.2 answer)).mono ?_
    rintro a e'' - ⟨hpost, hrunning'⟩
    exact ⟨hpost, hrunning'.trans hrunning⟩

theorem asks_running? (q : Identity) (listed : List Engine.Summary) :
    (running? q listed).run.Asks (fun c => moves c = false) fun _ => True := by
  induction listed with
  | nil => trivial
  | cons c listed ih =>
    rw [running?]
    split
    · refine Work.asks_bind.mpr ⟨rfl, ?_⟩
      rintro (err | details)
      · trivial
      change (ite _ _ _ : NodeWork _).run.Asks _ _
      split
      · trivial
      · exact ih
    · exact ih

theorem asks_lookup (q : Identity) :
    (lookup q).run.Asks (fun c => moves c = false) fun _ => True := by
  refine Work.asks_bind.mpr ⟨rfl, ?_⟩
  rintro (err | listed)
  · trivial
  · exact asks_running? q listed

theorem asks_pull (image : String) :
    (pull image).run.Asks (fun c => moves c = false) fun _ => True :=
  ⟨rfl, fun _ => ⟨rfl, fun _ => ⟨rfl, fun _ => trivial⟩⟩⟩

theorem asks_onStore {α : Type} (w : StoreWork α) :
    (onStore w).run.Asks (fun c => moves c = false) fun _ => True := by
  refine asks_expand_of_forall ?_ w.run
  exact fun _ _ h => ⟨rfl, h⟩

/-! ### Claiming names -/

/-- A lookup that is answered finds the first container of the pair. -/
theorem ensures_lookup (works : Works handle v good) (he : Keeps v good p first e)
    (hlist : ¬ mayFail .list) (hinspect : ¬ mayFail (.inspect first.id)) :
    (lookup p).run.Ensures (falters handle v mayFail) (Keeps v good p first)
      (fun r _ => r = .ok (some (canonical first.name))) e := by
  refine Work.Ensures.bind (ensures_still works he (c := .engine .list) rfl) ?_ ?_
  · rintro listed e' he' ⟨hlisted | ⟨hfails, -⟩, -⟩
    · rw [works.list he.good] at hlisted
      obtain rfl : listed = v.running e := Except.ok.inj hlisted
      have hfirst := he.first
      -- the entries in front of the container are passed over without a call
      generalize v.running e = listed at hfirst
      induction listed with
      | nil => cases hfirst
      | cons c listed ih =>
        by_cases hc : identity c.name = p
        · obtain rfl : c = first := by simpa [firstFor, served, hc] using hfirst
          rw [running?, if_pos hc]
          refine Work.Ensures.bind
            (ensures_still works he' (c := .engine (.inspect c.id)) rfl) ?_ ?_
          · rintro details e'' he'' ⟨hdetails | ⟨hfails, -⟩, -⟩
            · rw [works.inspect he'.good (mem_of_firstFor he'.first)] at hdetails
              obtain rfl := Except.ok.inj hdetails
              exact ⟨he'', rfl⟩
            · exact absurd hfails hinspect
          · rintro err e'' - ⟨hdetails | ⟨hfails, -⟩, -⟩
            · rw [works.inspect he'.good (mem_of_firstFor he'.first)] at hdetails
              cases hdetails
            · exact absurd hfails hinspect
        · rw [running?, if_neg hc]
          refine ih ?_
          simpa [firstFor, served, hc] using hfirst
    · exact absurd hfails hlist
  · rintro err e' - ⟨hlisted | ⟨hfails, -⟩, -⟩
    · rw [works.list he.good] at hlisted
      cases hlisted
    · exact absurd hfails hlist

/-- A container that is brought up for another pair, as far as that succeeds. -/
theorem ensures_launch_other (works : Works handle v good) (he : Keeps v good p first e)
    (s : NodeSettings) (c : Container) (name : String) (hother : identity ("/" ++ name) ≠ p) :
    (launch s c name).run.Ensures (falters handle v mayFail) (Keeps v good p first)
      (fun _ _ => True) e := by
  set spec := ContainerSpec.ofContainer c name s.volumeRoot with hspec
  refine Work.Ensures.bind (ensures_of_asks_still works he (asks_pull c.image)) ?_
    fun _ _ _ _ => trivial
  rintro _ e₁ he₁ -
  refine Work.Ensures.bind (m := fun r e₂ => ∀ id, r = .ok id → ⟨id, "/" ++ name⟩ ∈ v.idle e₂)
    (ensures_call_falters works he₁ (.engine (.create spec)) (fun hfree => ?_) ?_) ?_
    fun _ _ _ _ => trivial
  · obtain ⟨id, hid, hidle⟩ := works.create he₁.good hfree
    refine ⟨by rw [works.frame he₁.good rfl, he₁.first], fun id' hid' => ?_⟩
    obtain rfl : id = id' := Except.ok.inj (hid.symm.trans hid')
    exact hidle
  · rintro answer ⟨-, err, rfl⟩ id hid
    cases hid
  · rintro id e₂ he₂ hidle
    refine ensures_call_falters works he₂ (.engine (.start id)) (fun _ => ⟨?_, trivial⟩)
      fun _ _ => trivial
    obtain ⟨-, before, after, hbefore, hafter⟩ := works.start he₂.good (hidle id rfl)
    have hserved : served ⟨id, "/" ++ name⟩ ≠ p := hother
    rw [hafter, firstFor_insert_of_ne _ _ hserved, ← hbefore]
    exact he₂.first

/-- The pair itself claims the name of its container, other pairs whatever they can. -/
theorem ensures_claim_falters (works : Works handle v good) (he : Keeps v good p first e)
    (hlist : ¬ mayFail .list) (hinspect : ¬ mayFail (.inspect first.id)) (s : NodeSettings)
    (w : String × Container) :
    (claim s w.1 w.2).Ensures (falters handle v mayFail) (Keeps v good p first)
      (fun r _ => pair w = p → r = some (canonical first.name)) e := by
  by_cases hw : pair w = p
  · have hlookup := ensures_lookup works he hlist hinspect
    rw [← hw] at hlookup ⊢
    refine Ensures.bind hlookup ?_
    rintro _ e' he' rfl
    exact ⟨he', fun _ => rfl⟩
  refine Ensures.bind (ensures_of_asks_still works he (asks_lookup (pair w))) ?_
  rintro (err | _ | name) e' he' -
  · exact ⟨he', fun h => absurd h hw⟩
  · refine Ensures.bind (ensures_still works he' (c := .suffix) rfl) ?_
    rintro suffix e'' he'' -
    refine Ensures.bind (ensures_launch_other works he'' s w.2 (build w.1 w.2.name suffix) ?_) ?_
    · rw [identity_slash_build]
      exact hw
    · exact fun _ _ h _ => ⟨h, fun h => absurd h hw⟩
  · exact ⟨he', fun h => absurd h hw⟩

theorem ensures_claims_falters (works : Works handle v good) (he : Keeps v good p first e)
    (hlist : ¬ mayFail .list) (hinspect : ¬ mayFail (.inspect first.id)) (s : NodeSettings)
    (ws : List (String × Container)) :
    (claims s ws).Ensures (falters handle v mayFail) (Keeps v good p first)
      (fun names _ => p ∈ ws.map pair → canonical first.name ∈ names) e := by
  induction ws generalizing e with
  | nil => exact ⟨he, fun h => absurd h List.not_mem_nil⟩
  | cons w ws ih =>
    refine Ensures.bind (ensures_claim_falters works he hlist hinspect s w) ?_
    rintro name e' he' hname
    refine Ensures.bind (ih he') ?_
    rintro names e'' he'' hnames
    refine ⟨he'', fun hp => List.mem_append.mpr ?_⟩
    rcases List.mem_cons.mp hp with hw | hws
    · exact .inl (by simp [hname hw.symm])
    · exact .inr (hnames hws)

/-! ### Stopping the others -/

/-- One container is stopped, if that succeeds, and no other. -/
theorem ensures_kill_other (works : Works handle v good) (he : Keeps v good p first e)
    (s : NodeSettings) {c : Engine.Summary} (hc : c ∈ v.running e) (hother : c ≠ first) :
    (kill s c).Ensures (falters handle v mayFail) (Keeps v good p first)
      (fun _ e' => ∀ c' ∈ v.running e, c' ≠ c → c' ∈ v.running e') e := by
  refine Ensures.bind (m := fun _ e' => ∀ c' ∈ v.running e, c' ≠ c → c' ∈ v.running e')
    (ensures_call_falters works he (.engine (.stop c.id s.stopGracePeriod)) (fun _ => ?_)
      fun _ _ _ hc' _ => hc') ?_
  · rw [(works.stop s.stopGracePeriod he.good hc).2]
    exact ⟨firstFor_filter_ne he.first hother, fun c' hc' hne => by simp [hc', hne]⟩
  rintro stopped e₁ he₁ hleft
  refine Ensures.bind (ensures_still works he₁ (c := .timestamp) rfl) ?_
  rintro timestamp e₂ he₂ ⟨-, hrunning₂⟩
  refine Ensures.bind (ensures_of_asks_still works he₂ (asks_onStore _)) ?_
  rintro _ e₃ he₃ ⟨-, hrunning₃⟩
  rw [← hrunning₂, ← hrunning₃] at hleft
  exact ⟨he₃, hleft⟩

theorem ensures_killEach_others (works : Works handle v good) (he : Keeps v good p first e)
    (s : NodeSettings) {others : List Engine.Summary} (hothers : ∀ c ∈ others, c ∈ v.running e)
    (hfirst : first ∉ others) (hdistinct : others.Nodup) :
    (killEach s others).run.Ensures (falters handle v mayFail) (Keeps v good p first)
      (fun _ _ => True) e := by
  induction others generalizing e with
  | nil => exact ⟨he, trivial⟩
  | cons c others ih =>
    obtain ⟨hc, hdistinct⟩ := List.nodup_cons.mp hdistinct
    obtain ⟨hne, hfirst⟩ := not_or.mp (mt List.mem_cons.mpr hfirst)
    refine Ensures.bind
      (ensures_kill_other works he s (hothers c (List.mem_cons_self ..)) (Ne.symm hne)) ?_
    rintro stopped e' he' hleft
    refine Ensures.bind (ih he' (fun c' hc' => ?_) hfirst hdistinct) fun _ _ h _ => ⟨h, trivial⟩
    exact hleft c' (hothers c' (List.mem_cons_of_mem _ hc')) (ne_of_mem_of_not_mem hc' hc)

/-! ### Passes -/

/-- **What can be looked up is kept.** In every state of a pass for a list of manifests, whichever
calls fail, the first container of a pair of the list stays the first one, provided that the listing
and its own inspection do not fail. -/
theorem pass_keeps_first (works : Works handle v good) {s : NodeSettings}
    {manifests : List Manifest} (hp : p ∈ (wanted manifests).map pair) (he : good e)
    (hfirst : firstFor p (v.running e) = some first) (hlist : ¬ mayFail .list)
    (hinspect : ¬ mayFail (.inspect first.id)) {rest : Program nodeCalls (Except Error Unit)}
    {e' : σ} (run : Reaches (falters handle v mayFail) (pass s manifests).run e rest e') :
    firstFor p (v.running e') = some first := by
  have hkeeps : Keeps v good p first e := ⟨he, hfirst⟩
  have hpass : (pass s manifests).run.Ensures (falters handle v mayFail) (Keeps v good p first)
      (fun _ _ => True) e := by
    refine Work.ensures_bind.mpr (Work.ensures_lift.mpr ?_)
    refine (ensures_claims_falters works hkeeps hlist hinspect s _).mono ?_
    rintro names e₁ he₁ hclaimed
    refine Work.Ensures.bind (ensures_still works he₁ (c := .engine .list) rfl) ?_
      fun _ _ _ _ => trivial
    rintro listed e₂ he₂ ⟨hlisted | ⟨hfails, -⟩, hrunning⟩
    · rw [works.list he₁.good] at hlisted
      obtain rfl : listed = v.running e₁ := Except.ok.inj hlisted
      refine ensures_killEach_others works he₂ s ?_ ?_ ?_
      · rw [hrunning]
        exact fun c hc => (List.mem_filter.mp hc).1
      · intro h
        simpa [hclaimed hp] using (List.mem_filter.mp h).2
      · exact (List.Nodup.of_map _ (works.distinct he₁.good)).filter _
    · exact absurd hfails hlist
  exact (hpass.invariant_of_reaches run).first

theorem pass_keeps_first_busyBench :
    let outcome := (pass {} webManifests).run.run Bench.handle busyBench
    firstFor ⟨"web", "nginx"⟩ (Bench.view.running outcome.2) = some ⟨"a", "/nginx--web--1"⟩ := by
  have haccepts : ∀ x ∈ (pass {} webManifests).run.asked Bench.handle busyBench,
      Accepts Bench.view x.1 x.2 := by decide +kernel
  have run : Reaches (falters Bench.handle Bench.view fun c => c ≠ .list ∧ c ≠ .inspect "a")
      (pass {} webManifests).run busyBench _ _ :=
    .of_asked fun x hx => .inl ⟨haccepts x hx, rfl⟩
  exact pass_keeps_first works_bench (by decide) busyBench_orderly (by decide +kernel) (by simp)
    (by simp) run

/-- A pass whose first lookup fails goes on as if that container were not on the list. -/
theorem reaches_pass_of_refused {step : nodeCalls.Steps σ} {s : NodeSettings} {manifest : String}
    {c : Container} {manifests : List Manifest} {e' e'' : σ} (err : Error)
    {rest : Program nodeCalls (Except Error Unit)}
    (hrefused : step (.engine .list) e (.error err : Except Error (List Engine.Summary)) e')
    (run : Reaches step (pass s manifests).run e' rest e'') :
    Reaches step (pass s (⟨manifest, [c]⟩ :: manifests)).run e rest e'' := by
  refine .of_call hrefused ?_
  change Reaches step (Program.bind (Program.bind (Program.bind (claims s (wanted manifests)) done)
    _) _) e' rest e''
  rwa [bind_done]

/-- **A pass may lose what its list wants.** A single listing that fails, the one with which a
container is looked up, is enough. -/
theorem pass_drops_wanted :
    ¬ ∀ (s : NodeSettings) (manifests : List Manifest) (b b' : Bench) (result : Except Error Unit),
      b.engine.Orderly →
      Reaches (falters Bench.handle Bench.view (· = .list)) (pass s manifests).run b (done result)
        b' →
      ∀ q ∈ (wanted manifests).map pair, q ∈ (Bench.view.running b).map served →
        q ∈ (Bench.view.running b').map served := by
  intro h
  have haccepts : ∀ x ∈ (pass {} []).run.asked Bench.handle busyBench,
      Accepts Bench.view x.1 x.2 := by decide +kernel
  have run : Reaches (falters Bench.handle Bench.view (· = .list))
      (pass {} [⟨"web", [{ name := "nginx", image := "nginx" }]⟩]).run busyBench _ _ :=
    reaches_pass_of_refused (.engine "list failed") (.inr ⟨⟨rfl, _, rfl⟩, rfl⟩)
      (.of_asked fun x hx => .inl ⟨haccepts x hx, rfl⟩)
  have hlost := h _ _ _ _ _ busyBench_orderly run ⟨"web", "nginx"⟩ (by decide) (by decide +kernel)
  revert hlost
  decide +kernel

end ControlPlane.Node
