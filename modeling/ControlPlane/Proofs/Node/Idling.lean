import ControlPlane.Proofs.Node.Convergence

/-!
# A host that has converged is left alone

Nothing is remembered from one pass to the next, so a pass over a host on which everything is as it
should be finds that out anew, from nothing but the names of the containers. If one container runs
for each pair of the list and no other does, every pair claims the name of its container, no
container is left without a claim, and the pass ends having only looked.

Looking is all that is asked of the engine here. It has to list what runs and to say of what it
lists that it runs; whether a container could be started or stopped is not asked, and an engine on
which that fails is left alone just the same. Names are only compared as they are without the slash,
so it does not matter which of the two answers has it.

## Main definitions

* `Inquires`: the calls that only look
* `Truthful`: an engine that tells what runs
* `passes`: passes one after the other
* `OnlyLooks`: what they come to where nothing is to be done

## Main results

* `Truthful.ensures_pass`: what one pass does on a converged host
* `passes_idle`: any number of passes on it, and after a pass that has made it so
-/

namespace ControlPlane.Node

open ContainerName Program

/-- The calls by which an agent only looks at containers. -/
def Inquires (c : NodeCall) : Prop :=
  c = .engine .list ∨ ∃ id, c = .engine (.inspect id)

/-- An engine that tells what runs, in the states that `good` describes, and that does not change
any container when it is asked. -/
structure Truthful {σ : Type} (handle : (c : NodeCall) → σ → c.Answer × σ) (v : EngineView σ)
    (good : σ → Prop) : Prop where
  list : ∀ {e}, good e → (handle (.engine .list) e).1 = .ok (v.running e)
  inspect : ∀ {e c}, good e → c ∈ v.running e →
    ∃ name, (handle (.engine (.inspect c.id)) e).1 = .ok (⟨name, true⟩ : Engine.Details) ∧
      canonical name = canonical c.name
  stays : ∀ {c e}, good e → Inquires c → good (handle c e).2
  running : ∀ {c e}, good e → Inquires c → v.running (handle c e).2 = v.running e
  idle : ∀ {c e}, good e → Inquires c → v.idle (handle c e).2 = v.idle e

/-- Passes for one list, one after the other, and how each of them ended. -/
def passes (s : NodeSettings) (manifests : List Manifest) :
    Nat → Program nodeCalls (List (Except Error Unit))
  | 0 => return []
  | n + 1 => do
    let result ← (pass s manifests).run
    let results ← passes s manifests n
    return result :: results

/-- An engine that works is one that tells what runs, if looking leaves the others alone as well. -/
theorem Works.truthful {σ : Type} {handle : (c : NodeCall) → σ → c.Answer × σ} {v : EngineView σ}
    {good : σ → Prop} (works : Works handle v good)
    (hidle : ∀ {c e}, good e → Inquires c → v.idle (handle c e).2 = v.idle e) :
    Truthful handle v good where
  list := works.list
  inspect he hc := ⟨_, works.inspect he hc, rfl⟩
  stays he := by
    rintro (rfl | ⟨id, rfl⟩)
    · exact works.stays he trivial
    · exact works.stays he trivial
  running he := by
    rintro (rfl | ⟨id, rfl⟩)
    · exact works.frame he rfl
    · exact works.frame he rfl
  idle := hidle

theorem truthful_bench : Truthful Bench.handle Bench.view fun b => b.engine.Orderly := by
  refine works_bench.truthful ?_
  rintro _ b - (rfl | ⟨id, rfl⟩)
  · rfl
  · change (b.engine.perform (.inspect id)).2.unlisted = b.engine.unlisted
    simp only [Engine.Memory.perform]
    split <;> rfl

/-- Where no two containers are run for one pair, each is the first of its pair. -/
theorem firstFor_served {running : List Engine.Summary} {c : Engine.Summary}
    (hone : (running.map served).Nodup) (hc : c ∈ running) :
    firstFor (served c) running = some c := by
  cases hfirst : firstFor (served c) running with
  | none => exact absurd (List.mem_map_of_mem hc) (firstFor_eq_none_iff.mp hfirst)
  | some first =>
    have hsame : first = c :=
      List.inj_on_of_nodup_map hone (mem_of_firstFor hfirst) hc (served_of_firstFor hfirst)
    rw [hsame]

/-! ### One pass -/

section

variable {σ : Type} {handle : (c : NodeCall) → σ → c.Answer × σ} {v : EngineView σ}
  {good : σ → Prop} {e : σ} {x : σ × List NodeCall}

/-- Since the state `e` there were only calls that look, and all containers are as they were. -/
structure Undisturbed (v : EngineView σ) (good : σ → Prop) (e : σ) (x : σ × List NodeCall) : Prop
    where
  good : good x.1
  running : v.running x.1 = v.running e
  idle : v.idle x.1 = v.idle e
  inquiries : ∀ c ∈ x.2, Inquires c

/-- The steps of an engine, with its calls written down. -/
abbrev engineSteps (handle : (c : NodeCall) → σ → c.Answer × σ) :
    nodeCalls.Steps (σ × List NodeCall) :=
  stepsOf (I := nodeCalls) handle fun _ _ => True

namespace Truthful

variable (truthful : Truthful handle v good)

include truthful

theorem ensures_inquiry (hx : Undisturbed v good e x) {c : NodeCall} (hc : Inquires c) :
    (ask (I := nodeCalls) c).Ensures (engineSteps handle) (Undisturbed v good e)
      (fun a _ => a = (handle c x.1).1) x := by
  refine ensures_ask.mpr ⟨hx, ?_⟩
  rintro a ⟨e', calls⟩ ⟨-, hhandle, rfl⟩
  have hstays := truthful.stays hx.good hc
  have hrunning := truthful.running hx.good hc
  have hidle := truthful.idle hx.good hc
  rw [hhandle] at hstays hrunning hidle ⊢
  refine ⟨⟨hstays, hrunning.trans hx.running, hidle.trans hx.idle, ?_⟩, rfl⟩
  intro c' hc'
  rcases List.mem_append.mp hc' with hc' | hc'
  · exact hx.inquiries c' hc'
  · rwa [List.mem_singleton.mp hc']

theorem ensures_list (hx : Undisturbed v good e x) :
    (onEngine .list).run.Ensures (engineSteps handle) (Undisturbed v good e)
      (fun r _ => r = .ok (v.running e)) x := by
  refine (truthful.ensures_inquiry hx (.inl rfl)).mono ?_
  rintro a y - ha
  rw [ha, truthful.list hx.good, hx.running]

/-- The search goes on until the container that is run for the pair. -/
theorem ensures_running? (hx : Undisturbed v good e x) {p : Identity} {first : Engine.Summary}
    {listed : List Engine.Summary} (hlisted : ∀ c ∈ listed, c ∈ v.running e)
    (hfirst : firstFor p listed = some first) :
    (running? p listed).run.Ensures (engineSteps handle) (Undisturbed v good e)
      (fun r _ => r = .ok (some (canonical first.name))) x := by
  induction listed with
  | nil => cases hfirst
  | cons c listed ih =>
    by_cases hc : identity c.name = p
    · obtain rfl : c = first := by simpa [firstFor, served, hc] using hfirst
      have hrun : c ∈ v.running x.1 := by
        rw [hx.running]
        exact hlisted c (List.mem_cons_self ..)
      obtain ⟨name, hanswer, hname⟩ := truthful.inspect hx.good hrun
      rw [running?, if_pos hc]
      refine Work.Ensures.bind (truthful.ensures_inquiry hx (.inr ⟨c.id, rfl⟩)) ?_ ?_
      · rintro details y hy hdetails
        rw [hanswer] at hdetails
        obtain rfl := Except.ok.inj hdetails
        rw [← hname]
        exact ⟨hy, rfl⟩
      · rintro error y - herror
        rw [hanswer] at herror
        cases herror
    · have hrest : firstFor p listed = some first := by
        simpa [firstFor, served, hc] using hfirst
      rw [running?, if_neg hc]
      exact ih (fun c' hc' => hlisted c' (List.mem_cons_of_mem c hc')) hrest

theorem ensures_claim (hx : Undisturbed v good e x) (s : NodeSettings) {w : String × Container}
    {first : Engine.Summary} (hfirst : firstFor (pair w) (v.running e) = some first) :
    (claim s w.1 w.2).Ensures (engineSteps handle) (Undisturbed v good e)
      (fun name _ => name = some (canonical first.name)) x := by
  refine Ensures.bind (m := fun r _ => r = .ok (some (canonical first.name))) ?_ ?_
  · refine Work.Ensures.bind (truthful.ensures_list hx) ?_ (by rintro _ _ - ⟨⟩)
    rintro listed y hy hlisted
    obtain rfl := Except.ok.inj hlisted
    exact truthful.ensures_running? hy (fun _ hc => hc) hfirst
  · rintro _ y hy rfl
    exact ⟨hy, rfl⟩

/-- Every pair of a list that has a container claims its name. -/
theorem ensures_claims (hx : Undisturbed v good e x) (s : NodeSettings)
    {ws : List (String × Container)} (hws : ∀ w ∈ ws, pair w ∈ (v.running e).map served) :
    (claims s ws).Ensures (engineSteps handle) (Undisturbed v good e)
      (fun names _ => ∀ w ∈ ws, ∀ c, firstFor (pair w) (v.running e) = some c →
        canonical c.name ∈ names) x := by
  induction ws generalizing x with
  | nil => exact ⟨hx, fun _ hw => absurd hw List.not_mem_nil⟩
  | cons w ws ih =>
    obtain ⟨first, hfirst⟩ : ∃ first, firstFor (pair w) (v.running e) = some first :=
      Option.ne_none_iff_exists'.mp fun hnone =>
        firstFor_eq_none_iff.mp hnone (hws w (List.mem_cons_self ..))
    refine Ensures.bind (truthful.ensures_claim hx s hfirst) ?_
    rintro _ y hy rfl
    refine Ensures.bind (ih hy fun w' hw' => hws w' (List.mem_cons_of_mem w hw')) ?_
    intro names z hz hnames
    refine ⟨hz, fun w' hw' c hc => ?_⟩
    rcases List.mem_cons.mp hw' with rfl | hw'
    · obtain rfl : first = c := Option.some.inj (hfirst.symm.trans hc)
      exact List.mem_cons_self ..
    · exact List.mem_cons_of_mem _ (hnames w' hw' c hc)

/-- **One pass over a converged host only looks,** and so leaves the engine as it was. -/
theorem ensures_pass (hx : Undisturbed v good e x) (s : NodeSettings) {manifests : List Manifest}
    (hserved : ((v.running e).map served).Perm ((wanted manifests).map pair).dedup) :
    (pass s manifests).run.Ensures (engineSteps handle) (Undisturbed v good e)
      (fun r _ => r = .ok ()) x := by
  have hone : ((v.running e).map served).Nodup := hserved.nodup_iff.mpr (List.nodup_dedup _)
  have hmem (p : Identity) :
      p ∈ (v.running e).map served ↔ p ∈ (wanted manifests).map pair :=
    hserved.mem_iff.trans List.mem_dedup
  refine Work.ensures_bind.mpr (Work.ensures_lift.mpr ?_)
  refine (truthful.ensures_claims hx s
    fun w hw => (hmem _).mpr (List.mem_map_of_mem hw)).mono ?_
  intro names y hy hnames
  refine Work.Ensures.bind (truthful.ensures_list hy) ?_ (by rintro _ _ - ⟨⟩)
  intro listed z hz hlisted
  obtain rfl := Except.ok.inj hlisted
  -- whatever runs is run for a pair of the list, which has claimed its name
  have hnone : (v.running e).filter (fun c => !names.contains (canonical c.name)) = [] := by
    refine List.filter_eq_nil_iff.mpr fun c hc => ?_
    obtain ⟨w, hw, hpair⟩ := List.mem_map.mp ((hmem _).mp (List.mem_map_of_mem hc))
    have hfirst : firstFor (pair w) (v.running e) = some c := hpair ▸ firstFor_served hone hc
    simpa using hnames w hw c hfirst
  rw [hnone]
  exact ⟨hz, rfl⟩

/-! ### Passes one after the other -/

theorem ensures_passes (hx : Undisturbed v good e x) (s : NodeSettings) {manifests : List Manifest}
    (hserved : ((v.running e).map served).Perm ((wanted manifests).map pair).dedup) (n : Nat) :
    (passes s manifests n).Ensures (engineSteps handle) (Undisturbed v good e)
      (fun results _ => results = List.replicate n (.ok ())) x := by
  induction n generalizing x with
  | zero => exact ⟨hx, rfl⟩
  | succ n ih =>
    refine Ensures.bind (truthful.ensures_pass hx s hserved) ?_
    rintro _ y hy rfl
    refine Ensures.bind (ih hy) ?_
    rintro _ z hz rfl
    exact ⟨hz, rfl⟩

end Truthful

end

/-- What passes over a host come to that only look: all of them succeed, all calls are calls to list
containers or to look at one, and every container is as it was. -/
def OnlyLooks {σ : Type} (handle : (c : NodeCall) → σ → c.Answer × σ) (v : EngineView σ) (e : σ)
    (n : Nat) (p : Program nodeCalls (List (Except Error Unit))) : Prop :=
  (p.run handle e).1 = List.replicate n (.ok ()) ∧
    (∀ x ∈ p.asked handle e, Inquires x.1) ∧
    v.running (p.run handle e).2 = v.running e ∧ v.idle (p.run handle e).2 = v.idle e

theorem Truthful.onlyLooks {σ : Type} {handle : (c : NodeCall) → σ → c.Answer × σ}
    {v : EngineView σ} {good : σ → Prop} (truthful : Truthful handle v good) (s : NodeSettings)
    {manifests : List Manifest} {e : σ} (he : good e)
    (hserved : ((v.running e).map served).Perm ((wanted manifests).map pair).dedup) (n : Nat) :
    OnlyLooks handle v e n (passes s manifests n) := by
  have hstart : Undisturbed v good e (e, []) :=
    ⟨he, rfl, rfl, fun _ hc => absurd hc List.not_mem_nil⟩
  have hend : (passes s manifests n).Ensures (engineSteps handle) (Undisturbed v good e)
      (fun results x => results = List.replicate n (.ok ()) ∧ Undisturbed v good e x) (e, []) :=
    (truthful.ensures_passes hstart s hserved n).mono fun _ _ hinv hresults => ⟨hresults, hinv⟩
  obtain ⟨hresults, hleft⟩ := hend.of_run fun _ _ => trivial
  refine ⟨hresults, fun x hx => ?_, hleft.running, hleft.idle⟩
  exact hleft.inquiries x.1 (List.mem_map_of_mem hx)

/-- A pass, too, makes the running containers one for each pair of its list. -/
theorem Works.onlyLooks_after_pass {σ : Type} {handle : (c : NodeCall) → σ → c.Answer × σ}
    {v : EngineView σ} {good : σ → Prop} (works : Works handle v good)
    (truthful : Truthful handle v good) (s : NodeSettings) (manifests : List Manifest) {e : σ}
    (he : good e) (hfree : ∀ x ∈ (pass s manifests).run.asked handle e, Accepts v x.1 x.2)
    (n : Nat) :
    OnlyLooks handle v ((pass s manifests).run.run handle e).2 n (passes s manifests n) := by
  have hstands : Stands v (v.running e) [] ((e, []) : σ × List NodeCall) := ⟨rfl, rfl⟩
  have hpass : (pass s manifests).run.Ensures (passSteps handle v) (goodState good)
      (fun _ x => good x.1 ∧ ((v.running x.1).map served).Perm ((wanted manifests).map pair).dedup)
      (e, []) := by
    refine (ensures_pass works he hstands s manifests).mono ?_
    rintro _ y hy ⟨-, running', launched, names, ⟨hrunning, -⟩, hclaimed, hnamed, hdistinct⟩
    refine ⟨hy, ?_⟩
    rw [hrunning]
    exact hclaimed.served_kept_perm hnamed hdistinct
  obtain ⟨hgood, hserved⟩ := hpass.of_run hfree
  exact truthful.onlyLooks s hgood hserved n

/-- **A converged host is left alone.** If the running containers are one for each pair of a list of
manifests, any number of passes for that list succeed. They make no other calls than to list the
containers and to look at one of them, and leave every container as it was. On an engine that works
this is what follows every pass. -/
theorem passes_idle {σ : Type} {handle : (c : NodeCall) → σ → c.Answer × σ} {v : EngineView σ}
    {good : σ → Prop} (truthful : Truthful handle v good) (s : NodeSettings)
    (manifests : List Manifest) (n : Nat) :
    (∀ e, good e → ((v.running e).map served).Perm ((wanted manifests).map pair).dedup →
      OnlyLooks handle v e n (passes s manifests n)) ∧
    (Works handle v good → ∀ e, good e →
      (∀ x ∈ (pass s manifests).run.asked handle e, Accepts v x.1 x.2) →
      OnlyLooks handle v ((pass s manifests).run.run handle e).2 n (passes s manifests n)) :=
  ⟨fun _ he hserved => truthful.onlyLooks s he hserved n,
    fun works _ he hfree => works.onlyLooks_after_pass truthful s manifests he hfree n⟩

/-- Manifests whose names contain what separates and escapes the parts of a container's name. -/
def oddManifests : List Manifest :=
  [⟨"a--b_", [{ name := "/x", image := "x" }, { name := "", image := "y" }]⟩, ⟨"", []⟩,
    ⟨"--", [{ name := "_\n", image := "z" }, { name := "_\n", image := "z" }]⟩]

/-- A bench on which one container runs for each of them, in another order and under names that were
given at different times. -/
def oddBench : Bench where
  engine.containers := [⟨"k", "/" ++ ContainerName.build "--" "_\n" 7, true, true⟩,
    ⟨"l", "/" ++ ContainerName.build "a--b_" "" 1, true, true⟩,
    ⟨"m", "/" ++ ContainerName.build "a--b_" "/x" 7, true, true⟩,
    ⟨"n", "/left-over", false, false⟩]

theorem oddBench_orderly : oddBench.engine.Orderly where
  ids := by decide
  names := by decide +kernel
  named := by
    have h : ∀ c ∈ oddBench.engine.containers, c.name = "/" ++ canonical c.name := by
      decide +kernel
    exact fun c hc => ⟨canonical c.name, h c hc⟩
  listed := by decide
  fresh := by
    have h : ∀ c ∈ oddBench.engine.containers, c.id.toList.head? ≠ some 'c' := by decide
    intro c hc k _ hid
    exact h c hc (hid ▸ Engine.Memory.head_idOf k)

theorem passes_idle_oddBench :
    ((Bench.view.running oddBench).map served).Perm ((wanted oddManifests).map pair).dedup ∧
      OnlyLooks Bench.handle Bench.view oddBench 3 (passes {} oddManifests 3) ∧
      OnlyLooks Bench.handle Bench.view ((pass {} webManifests).run.run Bench.handle busyBench).2 3
        (passes {} webManifests 3) := by
  have hserved : ((Bench.view.running oddBench).map served).Perm
      ((wanted oddManifests).map pair).dedup := by decide +kernel
  have hfree : ∀ x ∈ (pass {} webManifests).run.asked Bench.handle busyBench,
      Accepts Bench.view x.1 x.2 := by decide +kernel
  exact ⟨hserved, (passes_idle truthful_bench {} oddManifests 3).1 _ oddBench_orderly hserved,
    (passes_idle truthful_bench {} webManifests 3).2 works_bench _ busyBench_orderly hfree⟩

end ControlPlane.Node
