import ControlPlane.Proofs.Node.ContainerName
import ControlPlane.Proofs.Node.WorkingEngine
import ControlPlane.Proofs.Program.Ensures
import Mathlib.Data.List.Dedup

/-!
# A pass converges

On an engine that works, one pass of a node agent makes the running containers agree with its list
of manifests: for every pair of a manifest and one of its containers there is exactly one running
container that is run for it, and nothing else runs.

A pass lists the containers anew for every container of its list, while it starts containers itself.
What makes the pieces fit is that it never starts a container for a pair that has one. So the first
listed container of a pair is the same from then on, wherever other containers come to stand, and a
pair that occurs twice in the list claims the same name twice.

## Main definitions

* `unserved`: the containers of a list that nothing is run for yet, each pair once
* `Launched`: the calls by which such containers are run

## Main results

* `ensures_claims`: what the first half of a pass leaves
* `pass_converges`: the pass succeeds, what runs after it, and which calls it makes for it
-/

namespace ControlPlane.Node

open ContainerName Program

/-- What a listed container is run for, as its name tells it. -/
def served (c : Engine.Summary) : Identity := identity c.name

/-- What a container of a manifest is wanted for. -/
def pair (w : String × Container) : Identity := ⟨w.1, w.2.name⟩

/-- The first of the listed containers that is run for a pair. -/
def firstFor (p : Identity) (running : List Engine.Summary) : Option Engine.Summary :=
  running.find? fun c => served c = p

/-- The containers of a list that nothing in `has` is run for, each pair once. -/
def unserved (has : List Identity) : List (String × Container) → List (String × Container)
  | [] => []
  | w :: ws => if pair w ∈ has then unserved has ws else w :: unserved (pair w :: has) ws

/-- The calls of an engine by which a container is brought up. -/
def launches (calls : List NodeCall) : List Engine.Call :=
  calls.filterMap fun
    | .engine (.pull image) => some (.pull image)
    | .engine (.create spec) => some (.create spec)
    | .engine (.start id) => some (.start id)
    | _ => none

/-- The calls that bring up containers of a list, one after the other: each image is pulled once,
and the container created under a name of its own and started. -/
inductive Launched (s : NodeSettings) : List (String × Container) → List Engine.Call → Prop
  | nil : Launched s [] []
  | cons {manifest : String} {c : Container} {ws : List (String × Container)}
      {calls : List Engine.Call} (suffix : UInt32) (id : String) :
      Launched s ws calls →
        Launched s ((manifest, c) :: ws)
          (.pull c.image :: .create (.ofContainer c (build manifest c.name suffix) s.volumeRoot) ::
            .start id :: calls)

/-! ### The first container of a pair -/

/-- A container for another pair does not change which one is the first, wherever it is put. -/
theorem firstFor_insert_of_ne {p : Identity} {c : Engine.Summary}
    (before after : List Engine.Summary) (h : served c ≠ p) :
    firstFor p (before ++ c :: after) = firstFor p (before ++ after) := by
  simp [firstFor, List.find?_append, h]

theorem firstFor_insert_self {c : Engine.Summary} {before after : List Engine.Summary}
    (h : firstFor (served c) (before ++ after) = none) :
    firstFor (served c) (before ++ c :: after) = some c := by
  have hbefore : before.find? (fun x => served x = served c) = none :=
    List.find?_eq_none.mpr fun x hx =>
      List.find?_eq_none.mp h x (List.mem_append_left _ hx)
  simp [firstFor, List.find?_append, hbefore]

theorem served_of_firstFor {p : Identity} {running : List Engine.Summary} {c : Engine.Summary}
    (h : firstFor p running = some c) : served c = p := by
  simpa using List.find?_some h

theorem mem_of_firstFor {p : Identity} {running : List Engine.Summary} {c : Engine.Summary}
    (h : firstFor p running = some c) : c ∈ running :=
  List.mem_of_find?_eq_some h

theorem firstFor_eq_none_iff {p : Identity} {running : List Engine.Summary} :
    firstFor p running = none ↔ p ∉ running.map served := by
  simp [firstFor, List.find?_eq_none]

/-- Only which pairs are served counts, not how often or in which order. -/
theorem unserved_congr {has has' : List Identity} (h : ∀ p, p ∈ has ↔ p ∈ has')
    (ws : List (String × Container)) : unserved has ws = unserved has' ws := by
  induction ws generalizing has has' with
  | nil => rfl
  | cons w ws ih =>
    have hcons : ∀ p, p ∈ pair w :: has ↔ p ∈ pair w :: has' := fun p => by simp [h]
    simp only [unserved, h, ih h, ih hcons]

/-! ### Passes, call by call -/

section

variable {σ : Type} {handle : (c : NodeCall) → σ → c.Answer × σ} {v : EngineView σ}
  {good : σ → Prop} {running : List Engine.Summary} {launched : List Engine.Call}
  {x : σ × List NodeCall}

/-- What runs, and which calls were made to bring it up. -/
def Stands (v : EngineView σ) (running : List Engine.Summary) (launched : List Engine.Call)
    (x : σ × List NodeCall) : Prop :=
  v.running x.1 = running ∧ launches x.2 = launched

/-- The steps of a pass, with a log of its calls: an engine that is a function, as far as it accepts
them. -/
abbrev passSteps (handle : (c : NodeCall) → σ → c.Answer × σ) (v : EngineView σ) :
    nodeCalls.Steps (σ × List NodeCall) :=
  stepsOf (I := nodeCalls) handle (Accepts v)

theorem launches_append (calls : List NodeCall) (c : NodeCall) :
    launches (calls ++ [c]) = launches calls ++ launches [c] := by
  simp [launches, List.filterMap_append]

/-- The states of the engine are not left, which is all that is asked of the log. -/
abbrev goodState (good : σ → Prop) (x : σ × List NodeCall) : Prop := good x.1

/-- One call: its answer, and what it leaves. It is the only place at which the engine is looked
into. -/
theorem ensures_call_node (works : Works handle v good) (hx : good x.1) (c : NodeCall)
    {post : c.Answer → σ × List NodeCall → Prop}
    (hpost : Accepts v c x.1 → post (handle c x.1).1 ((handle c x.1).2, x.2 ++ [c])) :
    (ask (I := nodeCalls) c).Ensures (passSteps handle v) (goodState good) post x := by
  refine ensures_ask.mpr ⟨hx, ?_⟩
  rintro a ⟨e, calls⟩ ⟨haccepts, hhandle, rfl⟩
  have hpost := hpost haccepts
  have hgood := works.stays hx haccepts
  rw [hhandle] at hpost hgood
  exact ⟨hgood, hpost⟩

/-- Calls that neither start nor stop nor bring up anything. -/
theorem ensures_quiet (works : Works handle v good) (hx : good x.1)
    (hstands : Stands v running launched x) {c : NodeCall} (hmoves : moves c = false)
    (hlaunch : launches [c] = []) :
    (ask (I := nodeCalls) c).Ensures (passSteps handle v) (goodState good)
      (fun a y => a = (handle c x.1).1 ∧ Stands v running launched y) x := by
  refine ensures_call_node works hx c fun _ => ⟨rfl, ?_, ?_⟩
  · exact (works.frame hx hmoves).trans hstands.1
  · rw [launches_append, hlaunch, List.append_nil]
    exact hstands.2

/-- Work on the store alone changes nothing that counts. -/
theorem ensures_onStore {α : Type} (works : Works handle v good) (hx : good x.1)
    (hstands : Stands v running launched x) (w : StoreWork α) :
    (onStore w).run.Ensures (passSteps handle v) (goodState good)
      (fun _ y => Stands v running launched y) x := by
  change (w.run.expand _).Ensures _ _ _ _
  generalize w.run = p
  induction p generalizing x with
  | done r => exact ⟨hx, hstands⟩
  | call c next ih =>
    refine Ensures.bind (ensures_quiet works hx hstands (c := .store c) rfl rfl) ?_
    exact fun a y hy h => ih a hy h.2

/-! ### Looking a container up -/

/-- The search through listed containers finds the first one of the pair. -/
theorem ensures_running? (works : Works handle v good) (hx : good x.1)
    (hstands : Stands v running launched x) (p : Identity) {listed : List Engine.Summary}
    (hlisted : ∀ c ∈ listed, c ∈ running) :
    (running? p listed).run.Ensures (passSteps handle v) (goodState good)
      (fun r y => r = .ok ((firstFor p listed).map fun c => canonical c.name) ∧
        Stands v running launched y) x := by
  induction listed generalizing x with
  | nil => exact ⟨hx, rfl, hstands⟩
  | cons c listed ih =>
    have hrest := fun c' h => hlisted c' (List.mem_cons_of_mem c h)
    by_cases hc : identity c.name = p
    · rw [running?, if_pos hc]
      refine Work.Ensures.bind (ensures_quiet works hx hstands (c := .engine (.inspect c.id))
        rfl rfl) ?_ ?_
      · rintro details y hy ⟨hdetails, hstands'⟩
        have hrun : c ∈ v.running x.1 := by
          rw [hstands.1]
          exact hlisted c (List.mem_cons_self ..)
        rw [works.inspect hx hrun] at hdetails
        obtain rfl := Except.ok.inj hdetails
        refine ⟨hy, ?_, hstands'⟩
        simp [firstFor, served, hc]
      · rintro e y hy ⟨hdetails, -⟩
        have hrun : c ∈ v.running x.1 := by
          rw [hstands.1]
          exact hlisted c (List.mem_cons_self ..)
        rw [works.inspect hx hrun] at hdetails
        cases hdetails
    · rw [running?, if_neg hc]
      have hfirst : firstFor p (c :: listed) = firstFor p listed := by
        simp [firstFor, served, hc]
      rw [hfirst]
      exact ih hx hstands hrest

/-! ### Bringing a container up -/

theorem ensures_pull (works : Works handle v good) (hx : good x.1)
    (hstands : Stands v running launched x) (image : String) :
    (pull image).run.Ensures (passSteps handle v) (goodState good)
      (fun r y => r = .ok () ∧ Stands v running (launched ++ [.pull image]) y) x := by
  refine Ensures.bind (ensures_quiet works hx hstands (c := .acquire) rfl rfl) ?_
  rintro _ y hy ⟨-, hy'⟩
  refine Ensures.bind (m := fun r z => r = .ok () ∧ Stands v running (launched ++ [.pull image]) z)
    (ensures_call_node works hy (.engine (.pull image)) fun _ => ⟨works.pull hy, ?_, ?_⟩) ?_
  · exact (works.frame hy rfl).trans hy'.1
  · rw [launches_append, hy'.2]
    rfl
  rintro r z hz ⟨rfl, hz'⟩
  refine Ensures.bind (ensures_quiet works hz hz' (c := .release) rfl rfl) ?_
  rintro _ u hu ⟨-, hu'⟩
  exact ⟨hu, rfl, hu'⟩

/-- **A container that is brought up under a free name runs from then on,** and the others run as
before. -/
theorem ensures_launch (works : Works handle v good) (hx : good x.1)
    (hstands : Stands v running launched x) (s : NodeSettings) (c : Container) (name : String) :
    (launch s c name).run.Ensures (passSteps handle v) (goodState good)
      (fun r y => r = .ok () ∧ ∃ id before after, running = before ++ after ∧
        Stands v (before ++ ⟨id, "/" ++ name⟩ :: after)
          (launched ++ [.pull c.image, .create (.ofContainer c name s.volumeRoot), .start id]) y)
      x := by
  set spec := ContainerSpec.ofContainer c name s.volumeRoot with hspec
  refine Work.Ensures.bind (ensures_pull works hx hstands c.image) ?_
    (by rintro e y _ ⟨h, -⟩; cases h)
  rintro _ y hy ⟨-, hy'⟩
  refine Work.Ensures.bind (m := fun r z => ∃ id, r = .ok id ∧ ⟨id, "/" ++ name⟩ ∈ v.idle z.1 ∧
      Stands v running (launched ++ [.pull c.image, .create spec]) z)
    (ensures_call_node works hy (.engine (.create spec)) fun hfree => ?_) ?_ ?_
  · obtain ⟨id, hid, hidle⟩ := works.create hy hfree
    refine ⟨id, hid, hidle, (works.frame hy rfl).trans hy'.1, ?_⟩
    rw [launches_append, hy'.2, List.append_assoc]
    rfl
  · rintro id z hz ⟨_, hid, hidle, hz'⟩
    obtain rfl := Except.ok.inj hid
    refine ensures_call_node works hz (.engine (.start id)) fun _ => ?_
    obtain ⟨hok, before, after, hbefore, hafter⟩ := works.start hz hidle
    refine ⟨hok, id, before, after, hz'.1.symm.trans hbefore, hafter, ?_⟩
    rw [launches_append, hz'.2, List.append_assoc]
    rfl
  · rintro e z _ ⟨_, h, -⟩
    cases h

/-! ### Claiming names -/

/-- A container is listed under the name that a pair claims. -/
theorem ensures_claim (works : Works handle v good) (hx : good x.1)
    (hstands : Stands v running launched x) (s : NodeSettings) (manifest : String) (c : Container) :
    (claim s manifest c).Ensures (passSteps handle v) (goodState good)
      (fun r y => ∃ running' calls first, Stands v running' (launched ++ calls) y ∧
        r = some (canonical first.name) ∧ firstFor ⟨manifest, c.name⟩ running' = some first ∧
        (running' = running ∧ calls = [] ∨
          firstFor ⟨manifest, c.name⟩ running = none ∧ Launched s [(manifest, c)] calls ∧
          ∃ before after, running = before ++ after ∧ running' = before ++ first :: after)) x := by
  refine Ensures.bind (m := fun r y =>
      r = .ok ((firstFor ⟨manifest, c.name⟩ running).map fun c => canonical c.name) ∧
        Stands v running launched y) ?_ ?_
  · refine Work.Ensures.bind (ensures_quiet works hx hstands (c := .engine .list) rfl rfl) ?_ ?_
    · rintro listed y hy ⟨hlisted, hy'⟩
      rw [works.list hx, hstands.1] at hlisted
      obtain rfl : listed = running := Except.ok.inj hlisted
      exact ensures_running? works hy hy' _ fun _ h => h
    · rintro e y _ ⟨hlisted, -⟩
      rw [works.list hx] at hlisted
      cases hlisted
  rintro found y hy ⟨rfl, hy'⟩
  cases hfirst : firstFor ⟨manifest, c.name⟩ running with
  | some first =>
    refine ⟨hy, running, [], first, ?_, rfl, hfirst, .inl ⟨rfl, rfl⟩⟩
    rwa [List.append_nil]
  | none =>
    refine Ensures.bind (ensures_quiet works hy hy' (c := .suffix) rfl rfl) ?_
    rintro suffix z hz ⟨-, hz'⟩
    refine Ensures.bind (ensures_launch works hz hz' s c (build manifest c.name suffix)) ?_
    rintro _ u hu ⟨-, id, before, after, hrunning, hu'⟩
    refine ⟨hu, _, _, ⟨id, "/" ++ build manifest c.name suffix⟩, hu', ?_, ?_, .inr ⟨rfl, ?_, ?_⟩⟩
    · rw [canonical_slash]
    · have hserved : served ⟨id, "/" ++ build manifest c.name suffix⟩ = ⟨manifest, c.name⟩ :=
        identity_slash_build manifest c.name suffix
      rw [← hserved]
      refine firstFor_insert_self ?_
      rw [hserved, ← hrunning]
      exact hfirst
    · exact .cons suffix id .nil
    · exact ⟨before, after, hrunning, rfl⟩

/-- What claiming names for a list leaves: every pair of it has a container, the first one of a pair
has stayed the first one, exactly the first ones have their names claimed, and exactly the pairs
without a container were launched. -/
structure Claimed (s : NodeSettings) (ws : List (String × Container))
    (running running' : List Engine.Summary) (calls : List Engine.Call) (names : List String) :
    Prop where
  keeps : ∀ {p c}, firstFor p running = some c → firstFor p running' = some c
  serves : ∀ w ∈ ws, ∃ c, firstFor (pair w) running' = some c ∧ canonical c.name ∈ names
  only : ∀ name ∈ names, ∃ w ∈ ws, ∃ c, firstFor (pair w) running' = some c ∧
    canonical c.name = name
  launched : Launched s (unserved (running.map served) ws) calls

theorem Claimed.nil (s : NodeSettings) (running : List Engine.Summary) :
    Claimed s [] running running [] [] where
  keeps h := h
  serves _ hw := absurd hw List.not_mem_nil
  only _ hname := absurd hname List.not_mem_nil
  launched := .nil

/-- Claiming the name of a container that is there already. -/
theorem Claimed.cons_served {s : NodeSettings} {w : String × Container}
    {ws : List (String × Container)} {running running' : List Engine.Summary}
    {calls : List Engine.Call} {names : List String} {first : Engine.Summary}
    (h : Claimed s ws running running' calls names)
    (hfirst : firstFor (pair w) running = some first) :
    Claimed s (w :: ws) running running' calls (canonical first.name :: names) where
  keeps := h.keeps
  serves := by
    rintro w' (_ | ⟨_, hw'⟩)
    · exact ⟨first, h.keeps hfirst, List.mem_cons_self ..⟩
    · obtain ⟨c, hc, hname⟩ := h.serves w' hw'
      exact ⟨c, hc, List.mem_cons_of_mem _ hname⟩
  only := by
    rintro name (_ | ⟨_, hname⟩)
    · exact ⟨w, List.mem_cons_self .., first, h.keeps hfirst, rfl⟩
    · obtain ⟨w', hw', hc⟩ := h.only name hname
      exact ⟨w', List.mem_cons_of_mem _ hw', hc⟩
  launched := by
    have hmem : pair w ∈ running.map served := by
      rw [← served_of_firstFor hfirst]
      exact List.mem_map_of_mem (mem_of_firstFor hfirst)
    rw [unserved, if_pos hmem]
    exact h.launched

/-- Claiming a name by launching a container, which is listed at some place then. -/
theorem Claimed.cons_launched {s : NodeSettings} {w : String × Container}
    {ws : List (String × Container)} {before after running' : List Engine.Summary}
    {first : Engine.Summary} {calls calls' : List Engine.Call} {names : List String}
    (h : Claimed s ws (before ++ first :: after) running' calls' names)
    (hfirst : firstFor (pair w) (before ++ first :: after) = some first)
    (hnone : firstFor (pair w) (before ++ after) = none) (hcalls : Launched s [w] calls) :
    Claimed s (w :: ws) (before ++ after) running' (calls ++ calls')
      (canonical first.name :: names) where
  keeps := by
    intro p c hp
    refine h.keeps ?_
    rwa [firstFor_insert_of_ne]
    -- a pair that had a container is not the one that was launched
    rintro rfl
    rw [served_of_firstFor hfirst, hnone] at hp
    cases hp
  serves := (h.cons_served hfirst).serves
  only := (h.cons_served hfirst).only
  launched := by
    have hmem : pair w ∉ (before ++ after).map served := firstFor_eq_none_iff.mp hnone
    have hsame : unserved (pair w :: (before ++ after).map served) ws =
        unserved ((before ++ first :: after).map served) ws := by
      refine unserved_congr (fun p => ?_) ws
      simp only [← served_of_firstFor hfirst, List.map_append, List.map_cons, List.mem_cons,
        List.mem_append]
      tauto
    rw [unserved, if_neg hmem, hsame]
    cases hcalls with
    | cons suffix id hnil =>
      cases hnil with
      | nil => exact .cons suffix id h.launched

/-- **Claiming names for a whole list.** The induction is on the list, with what was launched so far
carried along. -/
theorem ensures_claims (works : Works handle v good) (hx : good x.1)
    (hstands : Stands v running launched x) (s : NodeSettings) (ws : List (String × Container)) :
    (claims s ws).Ensures (passSteps handle v) (goodState good)
      (fun names y => ∃ running' calls, Stands v running' (launched ++ calls) y ∧
        Claimed s ws running running' calls names) x := by
  induction ws generalizing x running launched with
  | nil =>
    refine ⟨hx, running, [], ?_, .nil s running⟩
    rwa [List.append_nil]
  | cons w ws ih =>
    refine Ensures.bind (ensures_claim works hx hstands s w.1 w.2) ?_
    rintro _ y hy ⟨running₁, calls₁, first, hy', rfl, hfirst, hhow⟩
    refine Ensures.bind (ih hy hy') ?_
    rintro names z hz ⟨running₂, calls₂, hz', hclaimed⟩
    rw [List.append_assoc] at hz'
    refine ⟨hz, running₂, calls₁ ++ calls₂, hz', ?_⟩
    rcases hhow with ⟨rfl, rfl⟩ | ⟨hnone, hcalls, before, after, rfl, rfl⟩
    · exact hclaimed.cons_served hfirst
    · exact hclaimed.cons_launched hfirst hnone hcalls

/-! ### Stopping the others -/

theorem ensures_kill (works : Works handle v good) (hx : good x.1)
    (hstands : Stands v running launched x) (s : NodeSettings) {c : Engine.Summary}
    (hc : c ∈ running) :
    (kill s c).Ensures (passSteps handle v) (goodState good)
      (fun r y => r = .ok () ∧ Stands v (running.filter (· ≠ c)) launched y) x := by
  have hrun : c ∈ v.running x.1 := by rwa [hstands.1]
  refine Ensures.bind (m := fun r y => r = .ok () ∧ Stands v (running.filter (· ≠ c)) launched y)
    (ensures_call_node works hx (.engine (.stop c.id s.stopGracePeriod)) fun _ => ?_) ?_
  · obtain ⟨hok, hleft⟩ := works.stop s.stopGracePeriod hx hrun
    refine ⟨hok, hleft.trans (by rw [hstands.1]), ?_⟩
    rw [launches_append, hstands.2]
    exact List.append_nil launched
  rintro stopped y hy ⟨rfl, hy'⟩
  refine Ensures.bind (ensures_quiet works hy hy' (c := .timestamp) rfl rfl) ?_
  rintro timestamp z hz ⟨-, hz'⟩
  refine Ensures.bind (ensures_onStore works hz hz' _) ?_
  exact fun _ u hu hu' => ⟨hu, rfl, hu'⟩

theorem ensures_killEach (works : Works handle v good) (hx : good x.1)
    (hstands : Stands v running launched x) (s : NodeSettings) {others : List Engine.Summary}
    (hothers : ∀ c ∈ others, c ∈ running) (hdistinct : others.Nodup) :
    (killEach s others).run.Ensures (passSteps handle v) (goodState good)
      (fun r y => r = .ok () ∧ Stands v (running.filter (· ∉ others)) launched y) x := by
  induction others generalizing x running with
  | nil =>
    refine ⟨hx, rfl, ?_⟩
    simpa using hstands
  | cons c others ih =>
    obtain ⟨hc, hdistinct⟩ := List.nodup_cons.mp hdistinct
    refine Ensures.bind (ensures_kill works hx hstands s (hothers c (List.mem_cons_self ..))) ?_
    rintro first y hy ⟨rfl, hy'⟩
    have hleft : ∀ c' ∈ others, c' ∈ running.filter (· ≠ c) := by
      intro c' hc'
      refine List.mem_filter.mpr ⟨hothers c' (List.mem_cons_of_mem _ hc'), ?_⟩
      exact decide_eq_true (ne_of_mem_of_not_mem hc' hc)
    refine Ensures.bind (ih hy hy' hleft hdistinct) ?_
    rintro last z hz ⟨rfl, hz'⟩
    refine ⟨hz, rfl, ?_⟩
    have hfilter : (running.filter (· ≠ c)).filter (· ∉ others) =
        running.filter (· ∉ c :: others) := by
      rw [List.filter_filter]
      refine List.filter_congr fun c' _ => ?_
      simp [Bool.and_comm]
    rwa [hfilter] at hz'

/-! ### Convergence -/

/-- The running containers whose names are claimed, in the order in which they are listed. -/
def kept (names : List String) (running : List Engine.Summary) : List Engine.Summary :=
  running.filter fun c => names.contains (canonical c.name)

theorem mem_kept {names : List String} {running : List Engine.Summary} {c : Engine.Summary} :
    c ∈ kept names running ↔ c ∈ running ∧ canonical c.name ∈ names := by
  simp [kept]

/-- The containers that are not stopped are the first ones of the pairs of the list. -/
theorem Claimed.mem_kept_iff {s : NodeSettings} {ws : List (String × Container)}
    {running running' : List Engine.Summary} {calls : List Engine.Call} {names : List String}
    (h : Claimed s ws running running' calls names)
    (hnamed : ∀ c ∈ running', ∃ name, c.name = "/" ++ name)
    (hdistinct : (running'.map Engine.Summary.name).Nodup) (c : Engine.Summary) :
    c ∈ kept names running' ↔ ∃ w ∈ ws, firstFor (pair w) running' = some c := by
  rw [mem_kept]
  constructor
  · rintro ⟨hc, hname⟩
    obtain ⟨w, hw, first, hfirst, hsame⟩ := h.only _ hname
    obtain ⟨n, hn⟩ := hnamed c hc
    obtain ⟨n', hn'⟩ := hnamed first (mem_of_firstFor hfirst)
    rw [hn, hn', canonical_slash, canonical_slash] at hsame
    have heq : first = c := by
      refine List.inj_on_of_nodup_map hdistinct (mem_of_firstFor hfirst) hc ?_
      rw [hn, hn', hsame]
    exact ⟨w, hw, heq ▸ hfirst⟩
  · rintro ⟨w, hw, hfirst⟩
    obtain ⟨c', hc', hname⟩ := h.serves w hw
    obtain rfl : c = c' := Option.some.inj (hfirst.symm.trans hc')
    exact ⟨mem_of_firstFor hfirst, hname⟩

/-- They are one for each pair of the list. -/
theorem Claimed.served_kept_perm {s : NodeSettings} {ws : List (String × Container)}
    {running running' : List Engine.Summary} {calls : List Engine.Call} {names : List String}
    (h : Claimed s ws running running' calls names)
    (hnamed : ∀ c ∈ running', ∃ name, c.name = "/" ++ name)
    (hdistinct : (running'.map Engine.Summary.name).Nodup) :
    ((kept names running').map served).Perm (ws.map pair).dedup := by
  have hmem := h.mem_kept_iff hnamed hdistinct
  have hinj : ∀ c ∈ kept names running', ∀ c' ∈ kept names running',
      served c = served c' → c = c' := by
    intro c hc c' hc' hsame
    obtain ⟨w, -, hfirst⟩ := (hmem c).mp hc
    obtain ⟨w', -, hfirst'⟩ := (hmem c').mp hc'
    rw [← served_of_firstFor hfirst, hsame, served_of_firstFor hfirst', hfirst'] at hfirst
    exact (Option.some.inj hfirst).symm
  have hkept : (kept names running').Nodup := (List.Nodup.of_map _ hdistinct).filter _
  refine (List.perm_ext_iff_of_nodup (hkept.map_on hinj) (List.nodup_dedup _)).mpr fun p => ?_
  rw [List.mem_dedup, List.mem_map, List.mem_map]
  constructor
  · rintro ⟨c, hc, rfl⟩
    obtain ⟨w, hw, hfirst⟩ := (hmem c).mp hc
    exact ⟨w, hw, (served_of_firstFor hfirst).symm⟩
  · rintro ⟨w, hw, rfl⟩
    obtain ⟨c, hc, -⟩ := h.serves w hw
    exact ⟨c, (hmem c).mpr ⟨w, hw, hc⟩, served_of_firstFor hc⟩

/-- A pass, against every engine that works. -/
theorem ensures_pass (works : Works handle v good) (hx : good x.1)
    (hstands : Stands v running launched x) (s : NodeSettings) (manifests : List Manifest) :
    (pass s manifests).run.Ensures (passSteps handle v) (goodState good)
      (fun r y => r = .ok () ∧ ∃ running' calls names,
        Stands v (kept names running') (launched ++ calls) y ∧
        Claimed s (wanted manifests) running running' calls names ∧
        (∀ c ∈ running', ∃ name, c.name = "/" ++ name) ∧
        (running'.map Engine.Summary.name).Nodup) x := by
  refine Work.ensures_bind.mpr (Work.ensures_lift.mpr ?_)
  refine (ensures_claims works hx hstands s (wanted manifests)).mono ?_
  rintro names y hy ⟨running', calls, hy', hclaimed⟩
  have hnamed : ∀ c ∈ running', ∃ name, c.name = "/" ++ name := by
    rw [← hy'.1]
    exact fun c hc => works.named hy hc
  have hdistinct : (running'.map Engine.Summary.name).Nodup := by
    rw [← hy'.1]
    exact works.distinct hy
  refine Work.Ensures.bind (ensures_quiet works hy hy' (c := .engine .list) rfl rfl) ?_ ?_
  · rintro listed z hz ⟨hlisted, hz'⟩
    rw [works.list hy, hy'.1] at hlisted
    obtain rfl : listed = running' := Except.ok.inj hlisted
    have hrunning : listed.Nodup := List.Nodup.of_map _ hdistinct
    refine (ensures_killEach works hz hz' s (fun c hc => (List.mem_filter.mp hc).1)
      (hrunning.filter _)).mono ?_
    rintro r u hu ⟨rfl, hu'⟩
    refine ⟨rfl, listed, calls, names, ?_, hclaimed, hnamed, hdistinct⟩
    have hleft : listed.filter (· ∉ listed.filter fun c => !names.contains (canonical c.name)) =
        kept names listed := by
      refine List.filter_congr fun c hc => ?_
      simp [hc]
    rwa [hleft] at hu'
  · rintro e z _ ⟨hlisted, -⟩
    rw [works.list hy] at hlisted
    cases hlisted

end

/-- **Convergence.** On an engine that works, with new names that are free, a pass for any list of
manifests and over any running containers succeeds. What runs after it is one container for each
pair of the list and nothing else; a pair that had containers keeps the first of them, and images
are pulled and containers created and started for the other pairs only, once for each. -/
theorem pass_converges {σ : Type} {handle : (c : NodeCall) → σ → c.Answer × σ} {v : EngineView σ}
    {good : σ → Prop} (works : Works handle v good) (s : NodeSettings) (manifests : List Manifest)
    {e : σ} (he : good e)
    (hfree : ∀ x ∈ (pass s manifests).run.asked handle e, Accepts v x.1 x.2) :
    let outcome := (pass s manifests).run.run handle e
    let calls : List NodeCall := ((pass s manifests).run.asked handle e).map Prod.fst
    outcome.1 = .ok () ∧
      ((v.running outcome.2).map served).Perm ((wanted manifests).map pair).dedup ∧
      (∀ w ∈ wanted manifests, ∀ c, firstFor (pair w) (v.running e) = some c →
        c ∈ v.running outcome.2) ∧
      Launched s (unserved ((v.running e).map served) (wanted manifests)) (launches calls) := by
  have hstands : Stands v (v.running e) [] ((e, []) : σ × List NodeCall) := ⟨rfl, rfl⟩
  obtain ⟨hok, running', launched, names, ⟨hrunning, hlaunches⟩, hclaimed, hnamed, hdistinct⟩ :=
    (ensures_pass works he hstands s manifests).of_run hfree
  intro outcome calls
  have hcalls : launches calls = launched := hlaunches
  have hleft : v.running outcome.2 = kept names running' := hrunning
  refine ⟨hok, ?_, ?_, ?_⟩
  · rw [hleft]
    exact hclaimed.served_kept_perm hnamed hdistinct
  · intro w hw c hc
    rw [hleft, hclaimed.mem_kept_iff hnamed hdistinct]
    exact ⟨w, hw, hclaimed.keeps hc⟩
  · rw [hcalls]
    exact hclaimed.launched

/-- A bench with two containers of one pair and one of no manifest. -/
def busyBench : Bench where
  engine.containers := [⟨"a", "/nginx--web--1", true, true⟩, ⟨"b", "/nginx--web--2", true, true⟩,
    ⟨"d", "/cron", true, true⟩]

theorem busyBench_orderly : busyBench.engine.Orderly where
  ids := by decide
  names := by decide
  named := by
    have h : ∀ c ∈ busyBench.engine.containers, c.name = "/" ++ canonical c.name := by decide
    exact fun c hc => ⟨canonical c.name, h c hc⟩
  listed := by decide
  fresh := by
    have h : ∀ c ∈ busyBench.engine.containers, c.id.toList.head? ≠ some 'c' := by decide
    intro c hc k _ hid
    exact h c hc (hid ▸ Engine.Memory.head_idOf k)

/-- Two manifests of one id, with a container that both declare. -/
def webManifests : List Manifest :=
  [⟨"web", [{ name := "nginx", image := "nginx" }, { name := "cache", image := "redis" }]⟩,
    ⟨"web", [{ name := "cache", image := "redis" }]⟩]

theorem pass_converges_busyBench :
    let outcome := (pass {} webManifests).run.run Bench.handle busyBench
    outcome.1 = .ok () ∧
      (Bench.view.running outcome.2).map Engine.Summary.name =
        ["/nginx--web--1", "/cache--web--0"] ∧
      ((Bench.view.running outcome.2).map served).Perm
        ((wanted webManifests).map pair).dedup := by
  have hfree : ∀ x ∈ (pass {} webManifests).run.asked Bench.handle busyBench,
      Accepts Bench.view x.1 x.2 := by decide +kernel
  obtain ⟨hok, hserved, -, -⟩ := pass_converges works_bench {} webManifests busyBench_orderly hfree
  exact ⟨hok, by decide +kernel, hserved⟩

end ControlPlane.Node
