import ControlPlane.Proofs.Registry.Creation
import Mathlib.Data.List.Rotate

/-!
# Machines in turn

Round robin takes the number of its turn from a counter that all placements of a cluster share, and
nothing else. So it does not matter what the store answers, nor what becomes of a task once a
machine is chosen for it: a binding that fails has had its turn, and gives it back to nobody.

What is looked at here is therefore not one placement but the counter with all clients around it.
Any number of them is at work at once, call by call and in any order. The store is not modelled at
all: it may answer anything. A client may also be gone at any moment, with its turn taken or not.
What is recorded is which machine each placement comes to, in the order in which they come to one.

Fairness is then a fact about one list, read cyclically: `k` picks in a row, from whichever pick on,
are a rotation of the machines. A window of any length consists of whole rounds and of a part of
one. The names of the machines may repeat, so the bound is shown for the number of times that a name
stands in the list, and for positions as the special case of a list without repetition.

## Main definitions

* `Cluster.counts`: the counter, beside a store that answers anything
* `Visitor`, `Desk`, `Desk.Step`: clients that share the counter
* `Placement.window`: what a cyclic list gives from a position on

## Main results

* `Placement.count_window`: every window gives each element its share
* `Desk.Rotating.step`: one step keeps the counter and the picks together
* `Desk.Reachable.in_rotation`: picks go round, and each window of them is fair
-/

namespace ControlPlane

open Program

/-! ### Windows of a cyclic list -/

namespace Placement

section

variable {α : Type} {l : List α}

/-- The `w` elements from position `start` on of a list that is read cyclically. -/
def window (l : List α) (start w : Nat) : List α :=
  (List.range' start w).filterMap fun i => l[i % l.length]?

theorem window_add (l : List α) (start v w : Nat) :
    window l start (v + w) = window l start v ++ window l (start + v) w := by
  rw [window, ← List.range'_append_1, List.filterMap_append]
  rfl

theorem window_eq_map (hl : l ≠ []) (start w : Nat) :
    window l start w = (List.range' start w).map fun i =>
      l.get ⟨i % l.length, Nat.mod_lt i (List.length_pos_iff.mpr hl)⟩ := by
  rw [window, ← List.filterMap_eq_map]
  exact List.filterMap_congr fun i _ => List.getElem?_eq_getElem _

theorem length_window (hl : l ≠ []) (start w : Nat) : (window l start w).length = w := by
  rw [window_eq_map hl, List.length_map, List.length_range']

/-- **One round is a rotation,** wherever it begins, so every entry has one turn in it for each time
that it is named. -/
theorem window_length (l : List α) (start : Nat) : window l start l.length = l.rotate start := by
  by_cases hl : l = []
  · subst hl
    rfl
  rw [window_eq_map hl]
  refine List.ext_getElem (by simp) fun i hi hi' => ?_
  simp only [List.getElem_map, List.getElem_range', List.getElem_rotate, List.get_eq_getElem,
    Nat.one_mul, Nat.add_comm]

end

section

variable {α : Type} [DecidableEq α] {l : List α} {x : α} {start w : Nat}

theorem count_round (l : List α) (x : α) (start : Nat) :
    (window l start l.length).count x = l.count x := by
  rw [window_length, (l.rotate_perm start).count_eq]

/-- Less than a round gives no element more than a round. -/
theorem count_part (hw : w ≤ l.length) : (window l start w).count x ≤ l.count x := by
  rw [← count_round l x start, ← Nat.add_sub_of_le hw, window_add, List.count_append]
  exact Nat.le_add_right _ _

/-- **Every window gives each element its share:** as many times as it stands in the list for each
round that is complete, and at most so many times for each round that is begun. -/
theorem count_window (hl : l ≠ []) (x : α) (start w : Nat) :
    w / l.length * l.count x ≤ (window l start w).count x ∧
      (window l start w).count x ≤ (w + l.length - 1) / l.length * l.count x := by
  have hpos : 0 < l.length := List.length_pos_iff.mpr hl
  induction w using Nat.strongRecOn generalizing start with
  | _ w ih =>
    by_cases hw : w < l.length
    · rw [Nat.div_eq_of_lt hw, Nat.zero_mul]
      refine ⟨Nat.zero_le _, ?_⟩
      cases w with
      | zero => exact Nat.zero_le _
      | succ w =>
        have hceil : (w + 1 + l.length - 1) / l.length = 1 :=
          Nat.div_eq_of_lt_le (by omega) (by omega)
        rw [hceil, Nat.one_mul]
        exact count_part (Nat.le_of_lt hw)
    · -- A whole round comes first.
      obtain ⟨v, rfl⟩ : ∃ v, w = l.length + v := ⟨w - l.length, by omega⟩
      obtain ⟨hlower, hupper⟩ := ih v (by omega) (start + l.length)
      have hround : l.length + v + l.length - 1 = v + l.length - 1 + l.length := by omega
      rw [window_add, List.count_append, count_round, Nat.add_div_left _ hpos, hround,
        Nat.add_div_right _ hpos, Nat.succ_mul, Nat.succ_mul]
      omega

theorem count_positions {k p : Nat} (hp : p < k) (start w : Nat) :
    w / k ≤ (List.range' start w).countP (fun i => i % k = p) ∧
      (List.range' start w).countP (fun i => i % k = p) ≤ (w + k - 1) / k := by
  have hrange : List.range k ≠ [] := by
    rw [Ne, List.range_eq_nil]
    omega
  have hcyclic : window (List.range k) start w = (List.range' start w).map (· % k) := by
    simp [window_eq_map hrange]
  have honce : (List.range k).count p = 1 :=
    List.count_eq_one_of_mem List.nodup_range (List.mem_range.mpr hp)
  have hcount := count_window hrange p start w
  rwa [hcyclic, List.length_range, honce, Nat.mul_one, Nat.mul_one, List.count,
    List.countP_map] at hcount

end

end Placement

/-! ### The shared counter -/

/-- The counter, beside a store that answers anything and random numbers that are anything. -/
def Cluster.counts : clusterCalls.Steps UInt64
  | .store _, n, _, n' => n' = n
  | .turn, n, a, n' => a = n ∧ n' = n + 1
  | .pick _, n, _, n' => n' = n

/-- What a client asks of the cluster. -/
inductive Placing where
  /-- A machine for a task. -/
  | schedule (t : Task)
  /-- A machine for a task, and to bind it there. -/
  | create (t : Task)
deriving DecidableEq, Inhabited

namespace Placing

/-- The task that is placed. -/
def task : Placing → Task
  | schedule t | create t => t

/-- What is done with the machine that was chosen, or with the failure to choose one. -/
def next (cluster : Cluster) : Placing → Except Error String → Program clusterCalls Unit
  | schedule _, _ => done ()
  | create t, r =>
    (ExceptT.bindCont (fun machine => cluster.bindTo machine t) r).bind fun _ => done ()

end Placing

/-- A creation chooses a machine first; what follows does not look at the policy any more. -/
theorem Cluster.createTask_eq_next (cluster : Cluster) (t : Task) :
    (cluster.createTask t).run.bind (fun _ => done ()) =
      (cluster.place t).run.bind ((Placing.create t).next cluster) :=
  Program.bind_assoc ..

/-- A client at work, with the work that it still has to do. -/
inductive Visitor where
  /-- It is choosing a machine. -/
  | choosing (p : Placing) (choice : Program clusterCalls (Except Error String))
  /-- The choice is made. -/
  | settled (rest : Program clusterCalls Unit)

/-- Clients that share a counter, and which machine each placement has come to so far. -/
structure Desk where
  turns : UInt64 := 0
  visitors : List Visitor := []
  picks : List (Task × Except Error String) := []

namespace Desk

/-- The visitors are `before`, `v` and `after` now. A choice that has ended is recorded. -/
def put (cluster : Cluster) (d : Desk) (before : List Visitor) (v : Visitor)
    (after : List Visitor) : Desk :=
  match v with
  | .choosing p (.done r) =>
    { d with
      visitors := before ++ .settled (p.next cluster r) :: after
      picks := d.picks ++ [(p.task, r)] }
  | v => { d with visitors := before ++ v :: after }

/-- What may happen. Any client may go on at any moment, so turns are taken in an order that nobody
decides. -/
inductive Step (cluster : Cluster) (d : Desk) : Desk → Prop
  /-- Another client comes. -/
  | begin (p : Placing) :
      Step cluster d (d.put cluster d.visitors (.choosing p (cluster.place p.task).run) [])
  /-- A call on the way to a choice is answered. -/
  | choose {before after : List Visitor} {p : Placing} {c : ClusterCall}
      {next : c.Answer → Program clusterCalls (Except Error String)} {a : c.Answer} {n : UInt64} :
      d.visitors = before ++ .choosing p (.call c next) :: after →
      Cluster.counts c d.turns a n →
      Step cluster d ({ d with turns := n }.put cluster before (.choosing p (next a)) after)
  /-- A call behind the choice is answered. -/
  | goOn {before after : List Visitor} {c : ClusterCall}
      {next : c.Answer → Program clusterCalls Unit} {a : c.Answer} {n : UInt64} :
      d.visitors = before ++ .settled (.call c next) :: after →
      Cluster.counts c d.turns a n →
      Step cluster d ({ d with turns := n }.put cluster before (.settled (next a)) after)
  /-- A client is gone, at the end of its work or before. -/
  | leave {before after : List Visitor} {v : Visitor} :
      d.visitors = before ++ v :: after →
      Step cluster d { d with visitors := before ++ after }

/-- What comes of a counter that nobody has used yet. -/
inductive Reachable (cluster : Cluster) : Desk → Prop
  | start : Reachable cluster {}
  | step {d d' : Desk} : Reachable cluster d → Step cluster d d' → Reachable cluster d'

end Desk

/-- Work that only uses the store takes no turn. -/
theorem ClusterWork.asks_ofStore {α : Type} (w : StoreWork α) :
    (ofStore w).run.Asks (fun c : ClusterCall => c ≠ .turn) fun _ => True := by
  refine asks_expand_of_forall (fun c post h => ?_) w.run
  exact ⟨nofun, h⟩

/-- What follows the choice takes no turn, whatever was chosen. -/
theorem Placing.asks_next (cluster : Cluster) (p : Placing) (r : Except Error String) :
    (p.next cluster r).Asks (fun c : ClusterCall => c ≠ .turn) fun _ => True := by
  cases p with
  | schedule t => trivial
  | create t =>
    refine asks_bind.mpr ?_
    cases r with
    | error e => trivial
    | ok machine =>
      refine Work.asks_bind.mpr ((ClusterWork.asks_ofStore _).mono fun r _ => ?_)
      cases r <;> trivial

/-! ### Without machines -/

theorem Cluster.place_of_nil {cluster : Cluster} (hpolicy : cluster.policy = .roundRobin)
    (hnil : cluster.machines = []) (t : Task) :
    (cluster.place t).run = done (.error (.noMachine t.id)) := by
  rw [place, hpolicy, hnil]
  rfl

/-- No placement has come to a machine, and none is still waiting for one. -/
structure Desk.Refusing (d : Desk) : Prop where
  picks : ∀ x ∈ d.picks, x.2 = .error (.noMachine x.1.id)
  visitors : ∀ p choice, Visitor.choosing p choice ∉ d.visitors

/-! ### With machines -/

theorem Cluster.place_of_cons {cluster : Cluster} (hpolicy : cluster.policy = .roundRobin)
    {first : String} {others : List String} (hcons : cluster.machines = first :: others)
    (t : Task) :
    (cluster.place t).run =
      call (I := clusterCalls) ClusterCall.turn fun n =>
        done (.ok (Placement.inTurn n first others)) := by
  rw [place, hpolicy, hcons]
  rfl

/-- A visitor that is still choosing needs its turn and nothing else; any other takes no turn. -/
def Visitor.Due (first : String) (others : List String) : Visitor → Prop
  | .choosing _ choice =>
    choice = call (I := clusterCalls) ClusterCall.turn fun n =>
      done (.ok (Placement.inTurn n first others))
  | .settled rest => rest.Asks (fun c : ClusterCall => c ≠ .turn) fun _ => True

/-- The counter stands at the number of picks, and each pick was the turn of its number. -/
structure Desk.Rotating (first : String) (others : List String) (d : Desk) : Prop where
  turns : d.turns = UInt64.ofNat d.picks.length
  picks : d.picks.map (·.2) = (List.range d.picks.length).map fun i =>
    .ok (Placement.inTurn (UInt64.ofNat i) first others)
  visitors : ∀ v ∈ d.visitors, v.Due first others

namespace Desk

variable {cluster : Cluster} {d d' : Desk} {first : String} {others : List String}

/-- What is true of all visitors is true of one and of those around it. -/
theorem forall_mem_around {P : Visitor → Prop} {before after : List Visitor} {v : Visitor} :
    (∀ x ∈ before ++ v :: after, P x) ↔
      (∀ x ∈ before, P x) ∧ P v ∧ ∀ x ∈ after, P x := by
  rw [List.forall_mem_append, List.forall_mem_cons]

/-- **One step without machines:** a placement fails at once. -/
theorem Refusing.step (hpolicy : cluster.policy = .roundRobin) (hnil : cluster.machines = [])
    (h : d.Refusing) (hstep : Step cluster d d') : d'.Refusing := by
  cases hstep with
  | begin p =>
    rw [Cluster.place_of_nil hpolicy hnil]
    refine ⟨List.forall_mem_append.mpr ⟨h.picks, by simp⟩, fun q choice hmem => ?_⟩
    rcases List.mem_append.mp hmem with hmem | hmem
    · exact h.visitors q choice hmem
    · simp at hmem
  | choose hat _ =>
    exact absurd (hat ▸ List.mem_append_right _ (List.mem_cons_self ..)) (h.visitors _ _)
  | goOn hat _ =>
    refine ⟨h.picks, fun q choice hmem => h.visitors q choice ?_⟩
    rw [hat]
    simpa [put] using hmem
  | leave hat =>
    refine ⟨h.picks, fun q choice hmem => h.visitors q choice ?_⟩
    rw [hat]
    rcases List.mem_append.mp hmem with hmem | hmem
    · exact List.mem_append_left _ hmem
    · exact List.mem_append_right _ (List.mem_cons_of_mem _ hmem)

/-- **One step with machines:** who takes a turn has a machine, and nobody else takes one. -/
theorem Rotating.step (hpolicy : cluster.policy = .roundRobin)
    (hcons : cluster.machines = first :: others) (h : d.Rotating first others)
    (hstep : Step cluster d d') : d'.Rotating first others := by
  cases hstep with
  | begin p =>
    rw [Cluster.place_of_cons hpolicy hcons]
    exact ⟨h.turns, h.picks, List.forall_mem_append.mpr
      ⟨h.visitors, by simp [Visitor.Due]⟩⟩
  | @choose before after p c next a n hat hcounts =>
    obtain ⟨hbefore, hdue, hafter⟩ := forall_mem_around.mp (hat ▸ h.visitors)
    cases hdue
    obtain ⟨rfl, rfl⟩ := hcounts
    refine ⟨?_, ?_, ?_⟩
    · simp [put, h.turns]
    · simp [put, h.picks, h.turns, List.range_succ]
    · exact forall_mem_around.mpr ⟨hbefore, p.asks_next cluster _, hafter⟩
  | @goOn before after c next a n hat hcounts =>
    obtain ⟨hbefore, ⟨hcall, hrest⟩, hafter⟩ := forall_mem_around.mp (hat ▸ h.visitors)
    have hn : n = d.turns := by
      cases c with
      | store c => exact hcounts
      | turn => exact absurd rfl hcall
      | pick bound => exact hcounts
    subst hn
    exact ⟨h.turns, h.picks, forall_mem_around.mpr ⟨hbefore, hrest a, hafter⟩⟩
  | leave hat =>
    obtain ⟨hbefore, -, hafter⟩ := forall_mem_around.mp (hat ▸ h.visitors)
    exact ⟨h.turns, h.picks, List.forall_mem_append.mpr ⟨hbefore, hafter⟩⟩

/-! ### Whole runs -/

theorem Reachable.refusing (hpolicy : cluster.policy = .roundRobin) (hnil : cluster.machines = [])
    (h : Reachable cluster d) : d.Refusing := by
  induction h with
  | start => exact ⟨nofun, fun _ _ => List.not_mem_nil⟩
  | step _ hstep ih => exact ih.step hpolicy hnil hstep

theorem Reachable.rotating (hpolicy : cluster.policy = .roundRobin)
    (hcons : cluster.machines = first :: others) (h : Reachable cluster d) :
    d.Rotating first others := by
  induction h with
  | start => exact ⟨rfl, rfl, nofun⟩
  | step _ hstep ih => exact ih.step hpolicy hcons hstep

/-- As long as the counter does not wrap around, the picks are the machines read cyclically. -/
theorem Rotating.picks_eq_window (h : d.Rotating first others)
    (hsize : d.picks.length ≤ UInt64.size) :
    d.picks.map (·.2) =
      (Placement.window (first :: others) 0 d.picks.length).map .ok := by
  rw [h.picks, Placement.window_eq_map (List.cons_ne_nil first others), List.map_map,
    List.range_eq_range']
  refine List.map_congr_left fun i hi => ?_
  have hlt : i < UInt64.size := Nat.lt_of_lt_of_le (by simpa using hi) hsize
  rw [Function.comp_apply, Placement.inTurn]
  simp only [UInt64.toNat_ofNat_of_lt' hlt, List.length_cons]

theorem Rotating.slice_eq_window (h : d.Rotating first others)
    (hsize : d.picks.length ≤ UInt64.size) {start w : Nat} (hw : start + w ≤ d.picks.length) :
    ((d.picks.drop start).take w).map (·.2) =
      (Placement.window (first :: others) start w).map .ok := by
  obtain ⟨rest, hrest⟩ : ∃ rest, d.picks.length = start + w + rest :=
    ⟨d.picks.length - (start + w), by omega⟩
  have hlength := Placement.length_window (List.cons_ne_nil first others)
  rw [List.map_take, List.map_drop, h.picks_eq_window hsize, hrest, Placement.window_add,
    Placement.window_add, Nat.zero_add, List.append_assoc, List.map_append,
    List.drop_left' (by rw [List.length_map, hlength]), List.map_append,
    List.take_left' (by rw [List.length_map, hlength])]

/-- What round robin comes to with machines: which one each placement has been given, and how often
each one was in any placements in a row. -/
structure Fair (machines : List String) (d : Desk) : Prop where
  /-- Pick number `i` is the machine at position `i` modulo their number. -/
  pick : ∀ i x, d.picks[i]? = some x →
    ∃ m, machines[i % machines.length]? = some m ∧ x.2 = .ok m
  /-- Among `w` picks in a row, each position has its share. -/
  positions : ∀ start w, start + w ≤ d.picks.length → ∀ p < machines.length,
    w / machines.length ≤ (List.range' start w).countP (fun i => i % machines.length = p) ∧
      (List.range' start w).countP (fun i => i % machines.length = p) ≤
        (w + machines.length - 1) / machines.length
  /-- And each name, which may stand at several positions. -/
  names : ∀ start w, start + w ≤ d.picks.length → ∀ m,
    w / machines.length * machines.count m ≤
        ((d.picks.drop start).take w).countP (fun x => x.2 = .ok m) ∧
      ((d.picks.drop start).take w).countP (fun x => x.2 = .ok m) ≤
        (w + machines.length - 1) / machines.length * machines.count m
  /-- A placement that has not come to a machine waits for its turn, which gives it one. -/
  waiting : ∀ p choice, Visitor.choosing p choice ∈ d.visitors →
    ∃ next, choice = call (I := clusterCalls) ClusterCall.turn next ∧
      ∀ n, ∃ m ∈ machines, next n = done (.ok m)

theorem Rotating.fair (h : d.Rotating first others) (hsize : d.picks.length ≤ UInt64.size) :
    d.Fair (first :: others) where
  pick i x hx := by
    have hlt : i < d.picks.length := (List.getElem?_eq_some_iff.mp hx).1
    have hpick := congrArg (fun l => l[i]?) (h.picks_eq_window hsize)
    rw [Placement.window_eq_map (List.cons_ne_nil first others)] at hpick
    simp only [List.getElem?_map, hx, Option.map_some, List.getElem?_range' hlt, Nat.one_mul,
      Nat.zero_add] at hpick
    exact ⟨_, List.getElem?_eq_getElem _, Option.some.inj hpick⟩
  positions start w _ p hp := Placement.count_positions hp start w
  names start w hw m := by
    have hcount := Placement.count_window (List.cons_ne_nil first others) m start w
    have hsame : ((d.picks.drop start).take w).countP (fun x => x.2 = .ok m) =
        (Placement.window (first :: others) start w).count m := by
      have hmap := congrArg (List.countP fun r => r = .ok m) (h.slice_eq_window hsize hw)
      rw [List.countP_map, List.countP_map] at hmap
      exact hmap.trans (List.countP_congr fun x _ => by simp)
    rw [hsame]
    exact hcount
  waiting p choice hmem :=
    ⟨_, h.visitors _ hmem, fun n => ⟨_, List.get_mem .., rfl⟩⟩

/-- **Round robin is fair in every window,** for clients that work at the same time on a store that
answers anything, as long as the counter does not wrap around; and without machines every placement
fails at once. -/
theorem Reachable.in_rotation (hpolicy : cluster.policy = .roundRobin) (h : Reachable cluster d) :
    (cluster.machines = [] → d.Refusing) ∧
      (cluster.machines ≠ [] → d.picks.length ≤ UInt64.size → d.Fair cluster.machines) := by
  refine ⟨h.refusing hpolicy, fun hne hsize => ?_⟩
  obtain ⟨first, others, hcons⟩ := List.exists_cons_of_ne_nil hne
  rw [hcons]
  exact (h.rotating hpolicy hcons).fair hsize

/-- A cluster with two machines. -/
def pair : Cluster := { machines := ["h1", "h2"], policy := .roundRobin }

/-- A creation whose first look at the store fails, and a placement behind it. -/
theorem Reachable.in_rotation_pair :
    pair.policy = .roundRobin ∧ ∃ d, Reachable pair d ∧
      d.picks = [({ id := "web" }, .ok "h1"), ({ id := "db" }, .ok "h2")] ∧
      d.visitors = [.settled (done ())] ∧
      pair.machines ≠ [] ∧ d.picks.length ≤ UInt64.size ∧ d.Fair pair.machines := by
  have h1 : Reachable pair _ := Reachable.start.step (.begin (.create { id := "web" }))
  have h2 := h1.step (@Step.choose _ _ [] [] _ _ _ _ _ rfl ⟨rfl, rfl⟩)
  have h3 := h2.step (@Step.goOn _ _ [] [] (.store (.get (Keys.task "h1" "web"))) _
    (Except.error (.store "down")) _ rfl rfl)
  have h4 := h3.step (.begin (.schedule { id := "db" }))
  have h5 := h4.step (@Step.choose _ _ [.settled (done ())] [] _ _ _ _ _ rfl ⟨rfl, rfl⟩)
  have h6 := h5.step (@Step.leave _ _ [] _ _ rfl)
  have hne : pair.machines ≠ [] := by decide
  exact ⟨rfl, _, h6, rfl, rfl, hne, by decide, (h6.in_rotation rfl).2 hne (by decide)⟩

end Desk

end ControlPlane
