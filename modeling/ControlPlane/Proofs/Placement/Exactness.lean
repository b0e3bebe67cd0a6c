import ControlPlane.Proofs.Placement.FirstFit
import ControlPlane.Proofs.Registry.Planned

/-!
# First fit is exact

First fit looks at one machine after the other and stops at the first that takes the task, or at the
first that cannot be looked at. Here it runs on any store, with entries that have a time to live and
documents that cannot be read, while time passes between its calls and any of them may fail, as a
plan says.

## Main definitions

* `Placement.Takes`, `Placement.PassedOver`: whether a machine takes a task
* `Placement.Exact`: what first fit comes to
* `Placement.settled?`, `Placement.ending`: first fit as a search

## Main results

* `Placement.run_firstFit?`: first fit is a search among listings
* `Placement.firstFit_exact`: it finds the first machine that takes the task, and fails only as the
  store does or for want of a machine
-/

namespace ControlPlane

open Program Registry Store

namespace Placement

/-- The machine has room for the task, and none of its tasks takes a port that the task takes. -/
def Takes (capacity : UInt64) (t : Task) (bound : List Task) : Prop :=
  bound.length < capacity.toNat ∧ ∀ t' ∈ bound, t'.Compatible t

/-- The machine was looked at and does not take the task. -/
def PassedOver (capacity : UInt64) (t : Task) (x : String × Except Error (List Task)) : Prop :=
  ∃ bound, x.2 = .ok bound ∧ ¬ Takes capacity t bound

/-- What first fit comes to: its ending `r`, the store `u` that it leaves, and the number `n` of
calls that it makes. -/
structure Exact (plan : Plan) (s : Store) (capacity : UInt64) (t : Task)
    (listings : List (String × Except Error (List Task))) (r : Except Error String) (u : Store)
    (n : Nat) : Prop where
  /-- The first machine that takes the task is chosen, unless one before it cannot be looked at. -/
  chosen : ∀ m, r = .ok m ↔ ∃ before bound after, listings = before ++ (m, .ok bound) :: after ∧
    Takes capacity t bound ∧ ∀ x ∈ before, PassedOver capacity t x
  /-- It fails with the first failure, unless a machine before it takes the task, or because no
  machine takes it. -/
  failed : ∀ e, r = .error e ↔
    (∃ before m after, listings = before ++ (m, .error e) :: after ∧
      ∀ x ∈ before, PassedOver capacity t x) ∨
    e = .noMachine t.id ∧ ∀ x ∈ listings, PassedOver capacity t x
  /-- Where no call fails, a machine is found if there is one. -/
  decides : (∀ i, plan.fault i = none) →
    ((∃ m, r = .ok m) ↔ ∃ m bound, (m, .ok bound) ∈ listings ∧ Takes capacity t bound) ∧
      (r = .error (.noMachine t.id) ↔
        ∀ m bound, (m, .ok bound) ∈ listings → ¬ Takes capacity t bound)
  /-- No machine is looked at behind one that is not passed over. -/
  stops : ∀ before x after, listings = before ++ x :: after → ¬ PassedOver capacity t x →
    n ≤ before.length + 1
  kept : plan.Kept s n u

/-- What is settled by the listing of a machine: it takes the task, or it cannot be looked at. -/
def settled? (capacity : UInt64) (wanted : List UInt16) :
    String × Except Error (List Task) → Option (Except Error String)
  | (m, .ok bound) => if fits capacity wanted bound then some (.ok m) else none
  | (_, .error e) => some (.error e)

variable {plan : Plan} {s u : Store} {i : Nat} {capacity : UInt64} {t : Task}
  {x : String × Except Error (List Task)}

theorem takes_iff {bound : List Task} :
    Takes capacity t bound ↔ fits capacity t.hostPorts bound = true :=
  fits_iff.symm

theorem settled?_eq_none_iff :
    settled? capacity t.hostPorts x = none ↔ PassedOver capacity t x := by
  obtain ⟨m, bound | e⟩ := x
  · simp [settled?, PassedOver]
  · simp [settled?, PassedOver, takes_iff]

theorem settled?_eq_ok_iff {m : String} :
    settled? capacity t.hostPorts x = some (.ok m) ↔
      ∃ bound, x = (m, .ok bound) ∧ Takes capacity t bound := by
  obtain ⟨m', bound | e⟩ := x
  · simp [settled?]
  · simp [settled?, takes_iff, and_comm]

theorem settled?_eq_error_iff {wanted : List UInt16} {e : Error} :
    settled? capacity wanted x = some (.error e) ↔ ∃ m, x = (m, .error e) := by
  obtain ⟨m', bound | e⟩ := x
  · simp [settled?]
  · simp [settled?]

/-- The ending that a search among listings comes to. -/
def ending (capacity : UInt64) (t : Task) (l : List (String × Except Error (List Task))) :
    Except Error String :=
  (l.findSome? (settled? capacity t.hostPorts)).getD (.error (.noMachine t.id))

section

variable {l : List (String × Except Error (List Task))}

theorem ending_eq_ok_iff {m : String} :
    ending capacity t l = .ok m ↔ ∃ before bound after, l = before ++ (m, .ok bound) :: after ∧
      Takes capacity t bound ∧ ∀ x ∈ before, PassedOver capacity t x := by
  have hfound : ending capacity t l = .ok m ↔
      l.findSome? (settled? capacity t.hostPorts) = some (.ok m) := by
    rw [ending]
    cases l.findSome? (settled? capacity t.hostPorts) <;> simp
  rw [hfound, List.findSome?_eq_some_iff]
  simp only [settled?_eq_ok_iff, settled?_eq_none_iff]
  constructor
  · rintro ⟨before, _, after, hl, ⟨bound, rfl, htakes⟩, hbefore⟩
    exact ⟨before, bound, after, hl, htakes, hbefore⟩
  · rintro ⟨before, bound, after, hl, htakes, hbefore⟩
    exact ⟨before, _, after, hl, ⟨bound, rfl, htakes⟩, hbefore⟩

theorem findSome?_eq_none_iff :
    l.findSome? (settled? capacity t.hostPorts) = none ↔ ∀ x ∈ l, PassedOver capacity t x := by
  simp only [List.findSome?_eq_none_iff, settled?_eq_none_iff]

theorem ending_eq_error_iff {e : Error} :
    ending capacity t l = .error e ↔
      (∃ before m after, l = before ++ (m, .error e) :: after ∧
        ∀ x ∈ before, PassedOver capacity t x) ∨
      e = .noMachine t.id ∧ ∀ x ∈ l, PassedOver capacity t x := by
  have hfound : ending capacity t l = .error e ↔
      l.findSome? (settled? capacity t.hostPorts) = some (.error e) ∨
        e = .noMachine t.id ∧ l.findSome? (settled? capacity t.hostPorts) = none := by
    rw [ending]
    cases l.findSome? (settled? capacity t.hostPorts) <;> simp [eq_comm]
  rw [hfound, findSome?_eq_none_iff, List.findSome?_eq_some_iff]
  simp only [settled?_eq_error_iff, settled?_eq_none_iff]
  refine or_congr_left ⟨?_, ?_⟩
  · rintro ⟨before, _, after, hl, ⟨m, rfl⟩, hbefore⟩
    exact ⟨before, m, after, hl, hbefore⟩
  · rintro ⟨before, m, after, hl, hbefore⟩
    exact ⟨before, _, after, hl, ⟨m, rfl⟩, hbefore⟩

/-- Where every machine can be looked at, the search ends with a machine or for want of one. -/
theorem ending_of_listed (capacity : UInt64) (t : Task)
    (hl : ∀ x ∈ l, ∃ m bound, x = (m, .ok bound)) :
    (∃ m bound, ending capacity t l = .ok m ∧ (m, .ok bound) ∈ l ∧ Takes capacity t bound) ∨
      ending capacity t l = .error (.noMachine t.id) ∧
        ∀ m bound, (m, .ok bound) ∈ l → ¬ Takes capacity t bound := by
  cases hending : ending capacity t l with
  | ok m =>
    obtain ⟨before, bound, after, rfl, htakes, -⟩ := ending_eq_ok_iff.mp hending
    exact .inl ⟨m, bound, rfl, List.mem_append_right _ (List.mem_cons_self ..), htakes⟩
  | error e =>
    refine .inr ?_
    rcases ending_eq_error_iff.mp hending with ⟨before, m, after, rfl, -⟩ | ⟨rfl, hpassed⟩
    · obtain ⟨_, _, heq⟩ := hl _ (List.mem_append_right _ (List.mem_cons_self ..))
      cases heq
    · refine ⟨rfl, fun m bound hmem => ?_⟩
      obtain ⟨bound', heq, hnot⟩ := hpassed _ hmem
      rwa [Except.ok.inj heq]

end

/-- **First fit is a search among listings,** which stops at the first that settles it. -/
theorem run_firstFit? (hclock : Monotone plan.clock) (capacity : UInt64) (wanted : List UInt16)
    (machines : List String) (h : plan.Kept s i u) :
    ∃ v n, (firstFit? capacity wanted machines).run.run plan.store (u, i) =
        (match (plan.listings s i machines).findSome? (settled? capacity wanted) with
          | some r => r.map some
          | none => .ok none, (v, n)) ∧
      plan.Kept s n v ∧ ∀ before x after, plan.listings s i machines = before ++ x :: after →
        settled? capacity wanted x ≠ none → n ≤ i + before.length + 1 := by
  induction machines generalizing i u with
  | nil => exact ⟨u, i, rfl, h, fun before x after hl => by simp [Plan.listings] at hl⟩
  | cons m machines ih =>
    obtain ⟨v, hlisted, hkept⟩ := plan.run_machineTasks hclock h m
    rw [firstFit?, Work.run_bind_eq hlisted, Plan.listings, List.findSome?_cons]
    cases plan.listed s i m with
    | error e => exact ⟨v, i + 1, rfl, hkept, fun before x after _ _ => by omega⟩
    | ok bound =>
      dsimp only [ExceptT.bindCont]
      cases hfits : fits capacity wanted bound with
      | true =>
        rw [settled?, hfits]
        exact ⟨v, i + 1, rfl, hkept, fun before x after _ _ => by omega⟩
      | false =>
        obtain ⟨w, n, hrest, hkeptw, hstops⟩ := ih hkept
        rw [settled?, hfits]
        refine ⟨w, n, hrest, hkeptw, fun before x after hl hx => ?_⟩
        rcases before with _ | ⟨y, before⟩
        · obtain rfl := (List.cons.inj hl).1
          simp [settled?, hfits] at hx
        · have hn := hstops before x after (List.cons.inj hl).2 hx
          rw [List.length_cons]
          omega

/-- The calls of the policy are those of the search. -/
theorem run_choose (hclock : Monotone plan.clock) (s : Store) (capacity : UInt64)
    (machines : List String) (t : Task) :
    ∃ u n, (choose .firstFit capacity machines t).run.run plan.answer (s, 0) =
        (ending capacity t (plan.listings s 0 machines), (u, n)) ∧
      plan.Kept s n u ∧ ∀ before x after, plan.listings s 0 machines = before ++ x :: after →
        settled? capacity t.hostPorts x ≠ none → n ≤ before.length + 1 := by
  have hnew : plan.Kept s 0 s := fun now _ => Unchanged.refl now s
  obtain ⟨u, n, hrun, hkept, hstops⟩ := run_firstFit? hclock capacity t.hostPorts machines hnew
  refine ⟨u, n, ?_, hkept, fun before x after hl hx => by
    simpa only [Nat.zero_add] using hstops before x after hl hx⟩
  have hlook : (ClusterWork.ofStore (firstFit? capacity t.hostPorts machines)).run.run
      plan.answer (s, 0) = _ := (run_expand _ _ _ _).trans hrun
  rw [choose, ending]
  refine (Work.run_bind_eq hlook _).trans ?_
  cases (plan.listings s 0 machines).findSome? (settled? capacity t.hostPorts) with
  | none => rfl
  | some r => cases r <;> rfl

/-- **First fit is exact,** on every store, whichever calls fail. -/
theorem firstFit_exact (hclock : Monotone plan.clock) (s : Store) (capacity : UInt64)
    (machines : List String) (t : Task) :
    ∃ r u n, (choose .firstFit capacity machines t).run.run plan.answer (s, 0) = (r, (u, n)) ∧
      Exact plan s capacity t (plan.listings s 0 machines) r u n := by
  obtain ⟨u, n, hrun, hkept, hstops⟩ := run_choose hclock s capacity machines t
  refine ⟨_, u, n, hrun, fun m => ending_eq_ok_iff, fun e => ending_eq_error_iff,
    fun hfault => ?_, fun before x after hl hx => ?_, hkept⟩
  · have hlisted : ∀ x ∈ plan.listings s 0 machines, ∃ m bound, x = (m, .ok bound) :=
      fun x hx => Plan.ok_of_mem_listings hfault hx
    rcases ending_of_listed capacity t hlisted with
      ⟨m, bound, hending, hmem, htakes⟩ | ⟨hending, hnone⟩
    · rw [hending]
      exact ⟨⟨fun _ => ⟨m, bound, hmem, htakes⟩, fun _ => ⟨m, rfl⟩⟩,
        ⟨nofun, fun h => absurd htakes (h m bound hmem)⟩⟩
    · rw [hending]
      exact ⟨⟨nofun, fun ⟨m, bound, hmem, htakes⟩ => absurd htakes (hnone m bound hmem)⟩,
        ⟨fun _ => hnone, fun _ => rfl⟩⟩
  · exact hstops before x after hl fun h => hx (settled?_eq_none_iff.mp h)

/-- A task that takes a port of its host. -/
def holder : Task :=
  { desiredState := { manifest := { containers := [{ ports := [{ hostPort := 80 }] }] } } }

/-- Its document, without the fields that have their defaults. -/
def holderText : String :=
  (Json.record [("desiredState", .record [("manifest", .record [("containers", .array
    [.record [("ports", .array [.record [("hostPort", .ofNat 80)]])]])])])]).toText

/-- Two machines with such a task, of which the second goes after one nanosecond. -/
def waning : Store :=
  let first := (Store.empty.perform 0 (.set (Keys.task "h1" "a") holderText none)).2
  (first.perform 0 (.set (Keys.task "h2" "b") holderText (some ⟨0, 1, by decide⟩))).2

/-- One call in every nanosecond. -/
def ticking : Plan := { clock := fun i => i }

/-- While the first machine is looked at, the second one comes free. -/
theorem firstFit_exact_waning :
    Monotone ticking.clock ∧
      ∃ u n, (choose .firstFit 2 ["h1", "h2", "h3"] holder).run.run ticking.answer (waning, 0) =
        (.ok "h2", (u, n)) ∧ n ≤ 2 ∧ ticking.Kept waning n u := by
  have hclock : Monotone ticking.clock := monotone_id
  obtain ⟨r, u, n, hrun, hexact⟩ := firstFit_exact hclock waning 2 ["h1", "h2", "h3"] holder
  have hlistings : ticking.listings waning 0 ["h1", "h2", "h3"] =
      [("h1", .ok [holder.observedOn "h1"]), ("h2", .ok []), ("h3", .ok [])] := by
    decide +kernel
  rw [hlistings] at hexact
  have hfree : Takes 2 holder [] := takes_iff.mpr (by decide)
  have htaken : PassedOver 2 holder ("h1", .ok [holder.observedOn "h1"]) :=
    ⟨_, rfl, fun h => absurd (takes_iff.mp h) (by decide)⟩
  obtain rfl : r = .ok "h2" :=
    (hexact.chosen "h2").mpr ⟨[_], [], _, rfl, hfree, List.forall_mem_singleton.mpr htaken⟩
  refine ⟨hclock, u, n, hrun, hexact.stops [_] ("h2", .ok []) _ rfl ?_, hexact.kept⟩
  rintro ⟨bound, hbound, hnot⟩
  rw [← Except.ok.inj hbound] at hnot
  exact hnot hfree

end Placement

end ControlPlane
