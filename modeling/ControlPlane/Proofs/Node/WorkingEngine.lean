import ControlPlane.Engine.Memory
import ControlPlane.Node.Pass
import ControlPlane.Store.Basic
import Mathlib.Data.List.Nodup

/-!
# Engines that work

What a node agent needs of a container engine, as a contract on the surroundings in which the agent
runs. The engine itself is not part of this library, so the contract is a structure: `EngineView`
says how the running containers and those that were only created are read off a state, and `Works`
that every call succeeds and takes effect on them.

Nothing is assumed about where a container that is started comes to stand in the listing, only that
the others stay where they are. A name can be taken only once; a creation under a name that is in
use is outside of the contract.

The engine in memory meets it, which is `works_bench`.
-/

namespace ControlPlane.Node

/-- How the containers of an engine are read off a state. Names have the slash in front. -/
structure EngineView (σ : Type) where
  /-- The running containers, as they are listed. -/
  running : σ → List Engine.Summary
  /-- The containers that are held and do not run. -/
  idle : σ → List Engine.Summary

variable {σ : Type}

/-- Whether a container has the name, running or not. -/
def EngineView.InUse (v : EngineView σ) (e : σ) (name : String) : Prop :=
  ∃ c, (c ∈ v.running e ∨ c ∈ v.idle e) ∧ c.name = "/" ++ name

/-- Whether a call changes what is running. Pulling and creating do not. -/
def moves : NodeCall → Bool
  | .engine (.start _) | .engine (.stop ..) => true
  | _ => false

/-- Whether a call is acceptable: a container may only be created under a name that is free. -/
def Accepts (v : EngineView σ) : NodeCall → σ → Prop
  | .engine (.create spec), e => ¬ v.InUse e spec.name
  | _, _ => True

/-- An engine that works, in the states that `good` describes. -/
structure Works (handle : (c : NodeCall) → σ → c.Answer × σ) (v : EngineView σ)
    (good : σ → Prop) : Prop where
  /-- Acceptable calls lead from states of the engine to states of the engine. -/
  stays : ∀ {c e}, good e → Accepts v c e → good (handle c e).2
  named : ∀ {e c}, good e → c ∈ v.running e → ∃ name, c.name = "/" ++ name
  distinct : ∀ {e}, good e → ((v.running e).map Engine.Summary.name).Nodup
  /-- Only starting and stopping change what is running. -/
  frame : ∀ {c e}, good e → moves c = false → v.running (handle c e).2 = v.running e
  list : ∀ {e}, good e → (handle (.engine .list) e).1 = .ok (v.running e)
  inspect : ∀ {e c}, good e → c ∈ v.running e →
    (handle (.engine (.inspect c.id)) e).1 = .ok (⟨c.name, true⟩ : Engine.Details)
  pull : ∀ {e image}, good e → (handle (.engine (.pull image)) e).1 = .ok ()
  create : ∀ {e spec}, good e → ¬ v.InUse e spec.name →
    ∃ id, (handle (.engine (.create spec)) e).1 = .ok id ∧
      ⟨id, "/" ++ spec.name⟩ ∈ v.idle (handle (.engine (.create spec)) e).2
  start : ∀ {e c}, good e → c ∈ v.idle e →
    (handle (.engine (.start c.id)) e).1 = .ok () ∧
      ∃ before after, v.running e = before ++ after ∧
        v.running (handle (.engine (.start c.id)) e).2 = before ++ c :: after
  stop : ∀ {e c} grace, good e → c ∈ v.running e →
    (handle (.engine (.stop c.id grace)) e).1 = .ok () ∧
      v.running (handle (.engine (.stop c.id grace)) e).2 = (v.running e).filter (· ≠ c)

/-! ### The engine in memory -/

/-- The surroundings of an agent that has an engine and a store in memory to itself. Suffixes are
drawn in order. -/
structure Bench where
  engine : Engine.Memory := {}
  store : Store := {}
  draws : Nat := 0

/-- Answers a call of the agent. The store and the engine are those in memory, and the locks are
always free. -/
def Bench.handle : (c : NodeCall) → Bench → c.Answer × Bench
  | .engine c, b => ((b.engine.perform c).1, { b with engine := (b.engine.perform c).2 })
  | .store c, b => ((b.store.perform 0 c).1, { b with store := (b.store.perform 0 c).2 })
  | .acquire, b => ((), b)
  | .release, b => ((), b)
  | .suffix, b => (UInt32.ofNat b.draws, { b with draws := b.draws + 1 })
  | .timestamp, b => ((0 : Int64), b)

end ControlPlane.Node

namespace ControlPlane.Engine

/-- The container as it is listed. -/
def Held.summary (h : Held) : Summary := ⟨h.id, h.name⟩

namespace Memory

/-- The id of a creation. -/
def idOf (creation : Nat) : String := "c" ++ toString creation

theorem idOf_injective {m n : Nat} (h : idOf m = idOf n) : m = n := by
  have hdigits : Nat.toDigits 10 m = Nat.toDigits 10 n := by
    simpa [idOf, Nat.toString_eq_ofList_toDigits] using congrArg String.toList h
  rw [← Nat.ofDigitChars_ten_toDigits (n := m), hdigits, Nat.ofDigitChars_ten_toDigits]

theorem head_idOf (creation : Nat) : (idOf creation).toList.head? = some 'c' := by
  simp [idOf]

/-- What is true of an engine all of whose containers were created under free names, or could have
been: ids and names are unique, no id is one that a later creation will give, and what is listed is
what is running. -/
structure Orderly (m : Memory) : Prop where
  ids : (m.containers.map Held.id).Nodup
  names : (m.containers.map Held.name).Nodup
  named : ∀ h ∈ m.containers, ∃ name, h.name = "/" ++ name
  listed : ∀ h ∈ m.containers, h.listed = h.running
  fresh : ∀ h ∈ m.containers, ∀ k, m.creations < k → h.id ≠ idOf k

/-- The containers that are not listed, which are those that were created and not started, or that
have ended. -/
def unlisted (m : Memory) : List Summary :=
  (m.containers.filter fun h => !h.listed).map Held.summary

variable {m : Memory}

theorem summaries_eq (m : Memory) :
    m.summaries = (m.containers.filter Held.listed).map Held.summary := rfl

theorem mem_summaries {c : Summary} :
    c ∈ m.summaries ↔ ∃ h ∈ m.containers, h.listed = true ∧ h.summary = c := by
  simp [summaries_eq, and_assoc]

theorem mem_unlisted {c : Summary} :
    c ∈ m.unlisted ↔ ∃ h ∈ m.containers, h.listed = false ∧ h.summary = c := by
  simp [unlisted, and_assoc]

theorem Orderly.eq_of_id (hm : m.Orderly) {h h' : Held} (hh : h ∈ m.containers)
    (hh' : h' ∈ m.containers) (hid : h.id = h'.id) : h = h' :=
  List.inj_on_of_nodup_map hm.ids hh hh' hid

theorem Orderly.find?_eq (hm : m.Orderly) {h : Held} (hh : h ∈ m.containers) :
    m.find? h.id = some h := by
  cases hfind : m.find? h.id with
  | none =>
    have := List.find?_eq_none.mp hfind h hh
    simp at this
  | some h' =>
    have hid : h'.id = h.id := by simpa using List.find?_some hfind
    rw [hm.eq_of_id (List.mem_of_find?_eq_some hfind) hh hid]

/-! ### What the calls keep -/

/-- Changes that leave ids and names alone, and what is listed equal to what is running, keep an
engine orderly. -/
theorem Orderly.map (hm : m.Orderly) {f : Held → Held} (hid : ∀ h, (f h).id = h.id)
    (hname : ∀ h, (f h).name = h.name)
    (hlisted : ∀ h, h.listed = h.running → (f h).listed = (f h).running) :
    Orderly { m with containers := m.containers.map f } where
  ids := by simpa [List.map_map, Function.comp_def, hid] using hm.ids
  names := by simpa [List.map_map, Function.comp_def, hname] using hm.names
  named := by
    intro h hh
    obtain ⟨h', hh', rfl⟩ := List.mem_map.mp hh
    simpa [hname] using hm.named h' hh'
  listed := by
    intro h hh
    obtain ⟨h', hh', rfl⟩ := List.mem_map.mp hh
    exact hlisted h' (hm.listed h' hh')
  fresh := by
    intro h hh k hk
    obtain ⟨h', hh', rfl⟩ := List.mem_map.mp hh
    rw [hid]
    exact hm.fresh h' hh' k hk

theorem Orderly.change (hm : m.Orderly) (id : String) {f : Held → Held} (hid : ∀ h, (f h).id = h.id)
    (hname : ∀ h, (f h).name = h.name) (hlisted : ∀ h, (f h).listed = (f h).running) :
    (m.change id f).2.Orderly := by
  unfold Memory.change
  split
  · refine hm.map (fun h => ?_) (fun h => ?_) fun h hh => ?_
    · split
      · exact hid h
      · rfl
    · split
      · exact hname h
      · rfl
    · split
      · exact hlisted h
      · exact hh
  · exact hm

/-- Creation under a free name, which is all that could bring two containers of one name. -/
theorem Orderly.create (hm : m.Orderly) {spec : ContainerSpec}
    (hfree : ∀ h ∈ m.containers, h.name ≠ "/" ++ spec.name) :
    (m.perform (.create spec)).2.Orderly := by
  have hnew : ∀ h ∈ m.containers, h.id ≠ idOf (m.creations + 1) :=
    fun h hh => hm.fresh h hh _ (Nat.lt_succ_self _)
  change Orderly ⟨m.containers ++ [⟨idOf (m.creations + 1), "/" ++ spec.name, false, false⟩],
    m.creations + 1⟩
  refine ⟨?_, ?_, ?_, ?_, ?_⟩
  · rw [List.map_append, List.nodup_append]
    refine ⟨hm.ids, by simp, ?_⟩
    rintro id hid _ hcreated rfl
    obtain ⟨h, hh, rfl⟩ := List.mem_map.mp hid
    exact hnew h hh (by simpa using hcreated)
  · rw [List.map_append, List.nodup_append]
    refine ⟨hm.names, by simp, ?_⟩
    rintro name hname _ hcreated rfl
    obtain ⟨h, hh, rfl⟩ := List.mem_map.mp hname
    exact hfree h hh (by simpa using hcreated)
  · intro h hh
    rcases List.mem_append.mp hh with hh | hh
    · exact hm.named h hh
    · exact ⟨spec.name, by rw [List.mem_singleton.mp hh]⟩
  · intro h hh
    rcases List.mem_append.mp hh with hh | hh
    · exact hm.listed h hh
    · rw [List.mem_singleton.mp hh]
  · intro h hh k hk
    rcases List.mem_append.mp hh with hh | hh
    · exact hm.fresh h hh k (Nat.lt_of_succ_lt hk)
    · rw [List.mem_singleton.mp hh]
      intro hid
      have := idOf_injective hid
      simp only at hk
      omega

/-- Every acceptable call keeps an engine orderly. -/
theorem Orderly.perform (hm : m.Orderly) (c : Call)
    (hfree : ∀ spec, c = .create spec → ∀ h ∈ m.containers, h.name ≠ "/" ++ spec.name) :
    (m.perform c).2.Orderly := by
  cases c with
  | ping => exact hm
  | list => exact hm
  | inspect id =>
    simp only [Memory.perform]
    split <;> exact hm
  | pull image => exact hm
  | create spec => exact hm.create (hfree spec rfl)
  | start id => exact hm.change id (fun _ => rfl) (fun _ => rfl) fun _ => rfl
  | stop id grace => exact hm.change id (fun _ => rfl) (fun _ => rfl) fun _ => rfl

/-! ### What the calls change -/

/-- A call on one container leaves the containers of other ids alone. -/
theorem map_eq_self_of_ne {id : String} {f : Held → Held} {held : List Held}
    (h : ∀ x ∈ held, x.id ≠ id) :
    (held.map fun x => if x.id = id then f x else x) = held := by
  rw [List.map_congr_left fun x hx => if_neg (h x hx), List.map_id']

/-- Changing a container that is held changes it in its place. -/
theorem Orderly.change_eq (hm : m.Orderly) {h : Held} (hh : h ∈ m.containers) (f : Held → Held) :
    ∃ before after, m.containers = before ++ h :: after ∧
      m.change h.id f = (.ok (), { m with containers := before ++ f h :: after }) := by
  obtain ⟨before, after, heq⟩ := List.append_of_mem hh
  refine ⟨before, after, heq, ?_⟩
  have hids : (before.map Held.id ++ h.id :: after.map Held.id).Nodup := by
    have := hm.ids
    rwa [heq, List.map_append, List.map_cons] at this
  have hne : ∀ x ∈ before ++ after, x.id ≠ h.id := by
    intro x hx hid
    refine (List.nodup_cons.mp (List.nodup_middle.mp hids)).1 ?_
    rw [← List.map_append, ← hid]
    exact List.mem_map_of_mem hx
  have hbefore := map_eq_self_of_ne (f := f) fun x hx => hne x (List.mem_append_left _ hx)
  have hafter := map_eq_self_of_ne (f := f) fun x hx => hne x (List.mem_append_right _ hx)
  simp [Memory.change, hm.find?_eq hh, modify, heq, hbefore, hafter]

/-- A container that is started comes to be listed where it is held. -/
theorem Orderly.start (hm : m.Orderly) {c : Summary} (hc : c ∈ m.unlisted) :
    (m.perform (.start c.id)).1 = .ok () ∧ ∃ before after, m.summaries = before ++ after ∧
      (m.perform (.start c.id)).2.summaries = before ++ c :: after := by
  obtain ⟨h, hh, hlisted, rfl⟩ := mem_unlisted.mp hc
  obtain ⟨before, after, heq, hchange⟩ :=
    hm.change_eq hh fun held => { held with running := true, listed := true }
  change (m.change h.id _).1 = _ ∧ ∃ before after, _ ∧ (m.change h.id _).2.summaries = _
  rw [hchange]
  refine ⟨rfl, (before.filter Held.listed).map Held.summary,
    (after.filter Held.listed).map Held.summary, ?_, ?_⟩
  · simp [summaries_eq, heq, hlisted]
  · simp [summaries_eq, Held.summary]

/-- A container that is stopped is taken out of the listing, and no other. -/
theorem Orderly.stop (hm : m.Orderly) {c : Summary} {grace : Span} (hc : c ∈ m.summaries) :
    (m.perform (.stop c.id grace)).1 = .ok () ∧
      (m.perform (.stop c.id grace)).2.summaries = m.summaries.filter (· ≠ c) := by
  obtain ⟨h, hh, hlisted, rfl⟩ := mem_summaries.mp hc
  obtain ⟨before, after, heq, hchange⟩ :=
    hm.change_eq hh fun held => { held with running := false, listed := false }
  change (m.change h.id _).1 = _ ∧ (m.change h.id _).2.summaries = _
  rw [hchange]
  refine ⟨rfl, ?_⟩
  have hids : (before.map Held.id ++ h.id :: after.map Held.id).Nodup := by
    have := hm.ids
    rwa [heq, List.map_append, List.map_cons] at this
  have hne : ∀ x ∈ before ++ after, x.summary ≠ h.summary := by
    intro x hx hsame
    refine (List.nodup_cons.mp (List.nodup_middle.mp hids)).1 ?_
    have hid : x.id = h.id := congrArg Summary.id hsame
    rw [← List.map_append, ← hid]
    exact List.mem_map_of_mem hx
  have hkeep : ∀ held : List Held, (∀ x ∈ held, x.summary ≠ h.summary) →
      ((held.filter Held.listed).map Held.summary).filter (· ≠ h.summary) =
        (held.filter Held.listed).map Held.summary := by
    intro held hheld
    refine List.filter_eq_self.mpr fun c hc => ?_
    obtain ⟨x, hx, rfl⟩ := List.mem_map.mp hc
    simpa using hheld x (List.mem_filter.mp hx).1
  have hbefore := hkeep before fun x hx => hne x (List.mem_append_left _ hx)
  have hafter := hkeep after fun x hx => hne x (List.mem_append_right _ hx)
  change ((before ++ _ :: after).filter Held.listed).map Held.summary =
    ((m.containers.filter Held.listed).map Held.summary).filter (· ≠ h.summary)
  rw [heq]
  simp only [List.filter_append, List.map_append, List.filter_cons, hlisted, if_true, List.map_cons,
    hbefore, hafter]
  simp

end Memory

end ControlPlane.Engine

namespace ControlPlane.Node

open Engine

/-- What runs on a bench. -/
def Bench.view : EngineView Bench where
  running b := b.engine.summaries
  idle b := b.engine.unlisted

theorem Bench.inUse_iff {b : Bench} {name : String} :
    Bench.view.InUse b name ↔ ∃ h ∈ b.engine.containers, h.name = "/" ++ name := by
  constructor
  · rintro ⟨c, hc | hc, hname⟩
    · obtain ⟨h, hh, -, rfl⟩ := Memory.mem_summaries.mp hc
      exact ⟨h, hh, hname⟩
    · obtain ⟨h, hh, -, rfl⟩ := Memory.mem_unlisted.mp hc
      exact ⟨h, hh, hname⟩
  · rintro ⟨h, hh, hname⟩
    cases hlisted : h.listed with
    | true => exact ⟨h.summary, .inl (Memory.mem_summaries.mpr ⟨h, hh, hlisted, rfl⟩), hname⟩
    | false => exact ⟨h.summary, .inr (Memory.mem_unlisted.mpr ⟨h, hh, hlisted, rfl⟩), hname⟩

/-- Whether a bench accepts a call can be computed. -/
def Bench.decidableAccepts (b : Bench) : (c : NodeCall) → Decidable (Accepts Bench.view c b)
  | .engine (.create spec) =>
    decidable_of_iff (∀ h ∈ b.engine.containers, h.name ≠ "/" ++ spec.name) (by
      simp [Accepts, Bench.inUse_iff])
  | .engine .ping | .engine .list | .engine (.inspect _) | .engine (.pull _) | .engine (.start _)
  | .engine (.stop ..) | .store _ | .acquire | .release | .suffix | .timestamp =>
    isTrue trivial

instance (x : nodeCalls.Call × Bench) : Decidable (Accepts Bench.view x.1 x.2) :=
  x.2.decidableAccepts x.1

/-- **The engine in memory works,** so that what is asked of engines is asked of one that exists. -/
theorem works_bench : Works Bench.handle Bench.view fun b => b.engine.Orderly where
  stays := by
    intro c b hb hc
    cases c with
    | engine c =>
      refine hb.perform c fun spec hspec h hh hname => ?_
      subst hspec
      exact hc (Bench.inUse_iff.mpr ⟨h, hh, hname⟩)
    | store c => exact hb
    | acquire => exact hb
    | release => exact hb
    | suffix => exact hb
    | timestamp => exact hb
  named := by
    intro b c hb hc
    obtain ⟨h, hh, -, rfl⟩ := Memory.mem_summaries.mp hc
    exact hb.named h hh
  distinct := by
    intro b hb
    change (((b.engine.containers.filter Held.listed).map _).map _).Nodup
    rw [List.map_map]
    exact hb.names.sublist (List.filter_sublist.map _)
  frame := by
    intro c b hb hc
    cases c with
    | engine c =>
      cases c with
      | ping => rfl
      | list => rfl
      | inspect id =>
        change (b.engine.perform (.inspect id)).2.summaries = b.engine.summaries
        simp only [Memory.perform]
        split <;> rfl
      | pull image => rfl
      | create spec =>
        change ((b.engine.containers ++ [_]).filter Held.listed).map Held.summary = _
        simp [Bench.view, Memory.summaries_eq]
      | start id => cases hc
      | stop id grace => cases hc
    | store c => rfl
    | acquire => rfl
    | release => rfl
    | suffix => rfl
    | timestamp => rfl
  list := fun _ => rfl
  inspect := by
    intro b c hb hc
    obtain ⟨h, hh, hlisted, rfl⟩ := Memory.mem_summaries.mp hc
    change (b.engine.perform (.inspect h.id)).1 = _
    rw [Memory.perform, hb.find?_eq hh]
    simp [Held.summary, ← hb.listed h hh, hlisted]
  pull := fun _ => rfl
  create := by
    intro b spec hb _
    refine ⟨Memory.idOf (b.engine.creations + 1), rfl, Memory.mem_unlisted.mpr ?_⟩
    exact ⟨_, List.mem_append_right _ (List.mem_singleton_self _), rfl, rfl⟩
  start := fun hb hc => hb.start hc
  stop := fun _ hb hc => hb.stop hc

end ControlPlane.Node
