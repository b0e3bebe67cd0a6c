import ControlPlane.Proofs.Replication.Succession
import ControlPlane.Rehearsal.Steps

/-!
# Passes of a rehearsal that are started together

A rehearsal lets programs that are started together go on in one certain way: each of them makes its
calls until it has to wait, in order and again and again, and when all of them wait the clock moves.
For passes these are moves of a line-up. That a pass asks for the lock once more while it waits for
it makes no difference, since it keeps its place in the queue.

So passes that a rehearsal starts together come to what they come to one after the other, as long as
the patience of the schedule lasts.

## Main results

* `Rehearsal.Stage.finish`: a schedule makes moves of a line-up
* `Rehearsal.syncTogether_serial`: passes of a rehearsal that are started together
-/

namespace ControlPlane.Rehearsal

open Program WorldProgram Replication Relation

section

variable {m : Manager} {passes : List PlannedPass} {w v : World} {l : Lineup} {ticket : TicketId}
  {c : WorldCall} {next : c.Answer → WorldProgram PassResult} {jobs : List (Job PassResult)}
  {r : Rehearsal}

/-- A pass of the queue that tries to go on leaves everything as it is. -/
theorem eq_of_mem_queue {x : PlannedPass} {queue : List PlannedPass}
    (hlock : w.passLock = queueOf x queue) (h : ⟨ticket, .call c next⟩ ∈ queue.map m.job)
    (hnone : w.attempt ticket c = (none, v)) : v = w := by
  obtain ⟨y, hy, hjob⟩ := List.mem_map.mp h
  obtain rfl : y.1 = ticket := congrArg Job.id hjob
  have hprogram := (program_job m y).symm.trans (congrArg Job.program hjob)
  obtain ⟨rfl, -⟩ := Program.call.inj hprogram
  have hmem : y.1 ∈ w.passLock := hlock ▸ List.mem_cons_of_mem _ (List.mem_map_of_mem hy)
  exact (congrArg Prod.snd hnone).symm.trans (World.attempt_acquire_of_mem hmem)

/-- So does every pass that has begun and has to wait. -/
theorem Stage.eq_of_attempt (h : Stage m passes w l) (hmem : ⟨ticket, .call c next⟩ ∈ l.begun)
    (hnone : l.world.attempt ticket c = (none, v)) : v = l.world := by
  cases h with
  | settled => exact absurd hmem not_mem_ended
  | @given past queue coming x results u hturn =>
    rcases eq_or_mem_queue hmem with hjob | hmem
    · obtain rfl : ticket = x.1 := congrArg Job.id hjob
      have hprogram := (congrArg Job.program hjob).trans (program_job m x)
      obtain ⟨rfl, -⟩ := Program.call.inj hprogram
      cases (attempt_given u x queue).symm.trans hnone
    · exact eq_of_mem_queue rfl hmem hnone
  | @inside past queue coming x results u v' rest hturn hasks hreaches =>
    rcases eq_or_mem_queue hmem with hjob | hmem
    · cases rest with
      | done r =>
        obtain ⟨rfl, -⟩ := Program.call.inj (congrArg Job.program hjob)
        cases hnone
      | call c' next' =>
        obtain ⟨rfl, -⟩ := Program.call.inj (congrArg Job.program hjob)
        obtain ⟨moment, rfl, hlt⟩ :=
          World.eq_waitUntil_of_attempt hasks.1 (congrArg Prod.fst hnone)
        exact (congrArg Prod.snd ((attempt_waitUntil_of_lt hlt).symm.trans hnone)).symm
    · exact eq_of_mem_queue rfl hmem hnone
  | @woken past queue x results u v' moment next' hturn hasks hreaches hlt =>
    rcases eq_or_mem_queue hmem with hjob | hmem
    · obtain ⟨rfl, -⟩ := Program.call.inj (congrArg Job.program hjob)
      cases (attempt_waitUntil_of_le (Nat.le_refl moment)).symm.trans hnone
    · exact eq_of_mem_queue rfl hmem hnone

/-- A program that makes its calls until it has to wait. -/
theorem Stage.advance (hdistinct : (passes.map Prod.fst).Nodup) (h : Stage m passes w l)
    {before after : List (Job PassResult)} {p : WorldProgram PassResult}
    (hbegun : l.begun = before ++ ⟨ticket, p⟩ :: after) :
    ReflTransGen Lineup.Move l ⟨l.coming,
      before ++ ⟨ticket, (l.world.advance ticket p).1⟩ :: after,
      (l.world.advance ticket p).2⟩ := by
  induction p generalizing l with
  | done r => rw [World.advance, ← hbegun]
  | call c next ih =>
    rcases hattempt : l.world.attempt ticket c with ⟨_ | a, v⟩
    · have hmem : ⟨ticket, .call c next⟩ ∈ l.begun :=
        hbegun ▸ List.mem_append_right _ (List.mem_cons_self ..)
      obtain rfl := h.eq_of_attempt hmem hattempt
      rw [World.advance, hattempt]
      dsimp only
      rw [← hbegun]
    · have hmove := Lineup.Move.goesOn hbegun hattempt
      rw [World.advance, hattempt]
      exact .head hmove (ih a (h.move hdistinct hmove) rfl)

theorem Stage.advance_coming (hdistinct : (passes.map Prod.fst).Nodup) (h : Stage m passes w l)
    {job : Job PassResult} {coming : List (Job PassResult)} (hcoming : l.coming = job :: coming) :
    ReflTransGen Lineup.Move l ⟨coming,
      l.begun ++ [⟨job.id, (l.world.advance job.id job.program).1⟩],
      (l.world.advance job.id job.program).2⟩ := by
  have hbegins := Lineup.Move.begins hcoming
  have hstage := h.move hdistinct hbegins
  obtain ⟨id, program⟩ := job
  cases program with
  | done r => exact .single hbegins
  | call c next =>
    rcases hattempt : l.world.attempt id c with ⟨_ | a, v⟩
    · rw [tried_of_none rfl hattempt] at hbegins
      rw [World.advance, hattempt]
      exact .single hbegins
    · rw [tried_of_some rfl hattempt] at hbegins hstage
      rw [World.advance, hattempt]
      exact .head hbegins (hstage.advance hdistinct rfl)

/-- All of them, one after the other, in the order in which they stand. -/
theorem Stage.advanceJobs (begun : List (Job PassResult))
    (hdistinct : (passes.map Prod.fst).Nodup) (h : Stage m passes w ⟨[], begun ++ jobs, v⟩) :
    ReflTransGen Lineup.Move ⟨[], begun ++ jobs, v⟩
      ⟨[], begun ++ (advanceJobs jobs v).1, (advanceJobs jobs v).2⟩ := by
  induction jobs generalizing begun v with
  | nil => exact .refl
  | cons job jobs ih =>
    have hmoves := h.advance hdistinct rfl
    have hstage := h.moves hdistinct hmoves
    rw [Rehearsal.advanceJobs]
    generalize v.advance job.id job.program = advanced at hmoves hstage ⊢
    have hlist : ∀ jobs, begun ++ ⟨job.id, advanced.1⟩ :: jobs =
        begun ++ [⟨job.id, advanced.1⟩] ++ jobs := List.append_cons _ _
    rw [hlist] at hmoves hstage ⊢
    exact hmoves.trans (ih _ hstage)

theorem Stage.advanceJobs_coming {begun : List (Job PassResult)}
    (hdistinct : (passes.map Prod.fst).Nodup) (h : Stage m passes w ⟨jobs, begun, v⟩) :
    ReflTransGen Lineup.Move ⟨jobs, begun, v⟩
      ⟨[], begun ++ (Rehearsal.advanceJobs jobs v).1, (Rehearsal.advanceJobs jobs v).2⟩ := by
  induction jobs generalizing begun v with
  | nil => rw [Rehearsal.advanceJobs, List.append_nil]
  | cons job jobs ih =>
    have hmoves := h.advance_coming hdistinct rfl
    have hrest := hmoves.trans (ih (h.moves hdistinct hmoves))
    rwa [List.append_assoc] at hrest

/-! ### Schedules -/

/-- A background in which nothing is under way does nothing. -/
theorem turn?_of_quiet (hquiet : r.tickets = []) : r.turn? = none := by
  rw [turn?, hquiet]
  rfl

theorem settle_of_quiet (hquiet : r.tickets = []) (n : Nat) : r.settle n = r := by
  cases n with
  | zero => rfl
  | succ n => rw [settle, turn?_of_quiet hquiet]

/-- The first moment for which a pass waits is then the first for which anything waits. -/
theorem nextMoment?_of_quiet (hquiet : r.tickets = []) (jobs : List (Job PassResult)) :
    nextMoment? jobs r = nextMoment? jobs {} := by
  rw [nextMoment?, nextMoment?, hquiet]

theorem canGoOn_iff {coming : List (Job PassResult)} :
    Lineup.CanGoOn ⟨coming, jobs, w⟩ ↔
      (jobs.any fun job => job.result?.isNone && w.ready job.id job.program) = true := by
  rw [List.any_eq_true]
  constructor
  · rintro ⟨ticket, c, next, hmem, hsome⟩
    exact ⟨_, hmem, Option.isSome_iff_ne_none.mpr hsome⟩
  · rintro ⟨⟨ticket, program⟩, hmem, hready⟩
    cases program with
    | done r => cases hready
    | call c next => exact ⟨ticket, c, next, hmem, Option.isSome_iff_ne_none.mp hready⟩

/-- A line-up can come to where a schedule leaves these programs, with nothing in the background. -/
def Comes (l : Lineup) (jobs : List (Job PassResult)) (r : Rehearsal) (n : Nat) : Prop :=
  ReflTransGen Lineup.Move l ⟨[], (finish jobs r n).1, (finish jobs r n).2.world⟩ ∧
    (finish jobs r n).2.tickets = []

/-- A schedule goes on from where all programs wait or are done. -/
theorem Stage.finish_succ {n : Nat} (hdistinct : (passes.map Prod.fst).Nodup)
    (hrest : ∀ {jobs r}, r.tickets = [] → Stage m passes w ⟨[], jobs, r.world⟩ →
      Comes ⟨[], jobs, r.world⟩ jobs r n)
    (h : Stage m passes w l) (hquiet : r.tickets = [])
    (hadvance : ReflTransGen Lineup.Move l
      ⟨[], (Rehearsal.advanceJobs jobs r.world).1, (Rehearsal.advanceJobs jobs r.world).2⟩) :
    Comes l jobs r (n + 1) := by
  have hstage := h.moves hdistinct hadvance
  rw [Comes, Rehearsal.finish]
  generalize Rehearsal.advanceJobs jobs r.world = advanced at hadvance hstage ⊢
  obtain ⟨jobs', v⟩ := advanced
  dsimp only at hadvance hstage ⊢
  -- all are done, or some can go on, or the clock moves
  split
  · exact ⟨hadvance, hquiet⟩
  split
  · have hcomes := hrest (r := { r with world := v }) hquiet hstage
    exact ⟨hadvance.trans hcomes.1, hcomes.2⟩
  rename_i hwait
  rw [turn?_of_quiet (r := { r with world := v }) hquiet]
  dsimp only
  rw [nextMoment?_of_quiet (r := { r with world := v }) hquiet]
  cases hmoment : nextMoment? jobs' {} with
  | none => exact ⟨hadvance, hquiet⟩
  | some moment =>
    have hticks := Lineup.Move.ticks (l := ⟨[], jobs', v⟩) rfl (mt canGoOn_iff.mp hwait) hmoment
    have hcomes := hrest (r := { r with world := { v with clock := moment } }) hquiet
      (hstage.move hdistinct hticks)
    exact ⟨(hadvance.tail hticks).trans hcomes.1, hcomes.2⟩

/-- **A schedule makes moves of a line-up.** -/
theorem Stage.finish (hdistinct : (passes.map Prod.fst).Nodup) (hquiet : r.tickets = [])
    (h : Stage m passes w ⟨[], jobs, r.world⟩) (n : Nat) :
    Comes ⟨[], jobs, r.world⟩ jobs r n := by
  induction n generalizing jobs r with
  | zero => exact ⟨.refl, hquiet⟩
  | succ n ih => exact h.finish_succ hdistinct ih hquiet (Stage.advanceJobs [] hdistinct h)

end

/-- Passes for controllers, which are numbered in the order in which they are started. -/
def numbered (started : Nat) (controllers : List Controller) : List PlannedPass :=
  controllers.zipIdx.map fun (c, k) => (started + k, c)

theorem numbered_distinct (started : Nat) (controllers : List Controller) :
    ((numbered started controllers).map Prod.fst).Nodup := by
  have hnumbers : (numbered started controllers).map Prod.fst =
      (controllers.zipIdx.map Prod.snd).map (started + ·) := by
    rw [numbered, List.map_map, List.map_map]
    rfl
  rw [hnumbers, List.zipIdx_map_snd]
  exact (List.nodup_range' ..).map fun _ _ => Nat.add_left_cancel

/-- **Passes that a rehearsal starts together** come to what they come to one after the other, if
nothing else is under way and none of them is given up. -/
theorem syncTogether_serial (r : Rehearsal) (controllers : List Controller)
    (hquiet : r.tickets = []) (hfree : r.world.passLock = [])
    (hends : ∀ result ∈ (r.performAll (controllers.map (pass r.manager))).1, result.isSome = true) :
    r.manager.OneByOne (numbered r.started controllers) r.world (r.syncTogether controllers).1
      (r.syncTogether controllers).2.world := by
  have hdistinct := numbered_distinct r.started controllers
  have hjobs : (controllers.map (pass r.manager)).zipIdx.map
      (fun (program, k) => (⟨r.started + k, program⟩ : Job PassResult)) =
        (numbered r.started controllers).map r.manager.job := by
    rw [List.zipIdx_map, numbered, List.map_map, List.map_map]
    rfl
  have hstage : Stage r.manager (numbered r.started controllers) r.world
      (r.manager.lineup (numbered r.started controllers) r.world) := stage_lineup hfree
  have hcomes : Comes _ _
      { r with started := r.started + (controllers.map (pass r.manager)).length } patience :=
    hstage.finish_succ (n := 999999) hdistinct (fun hquiet h => h.finish hdistinct hquiet _) hquiet
      (Stage.advanceJobs_coming hdistinct hstage)
  rw [oneByOne_iff hfree, ← comesTo_iff hdistinct hfree .refl]
  rw [Comes] at hcomes
  rw [syncTogether]
  rw [performAll, hjobs] at hends ⊢
  generalize Rehearsal.finish _ _ patience = finished at hcomes hends ⊢
  obtain ⟨jobs, left⟩ := finished
  obtain ⟨hmoves, hleft⟩ := hcomes
  dsimp only at hmoves hleft hends ⊢
  rw [settle_of_quiet hleft]
  refine ⟨jobs, hmoves, ?_⟩
  rw [List.map_map]
  refine (List.map_id _).symm.trans (List.map_congr_left fun result hresult => ?_)
  obtain ⟨outcome, rfl⟩ := Option.isSome_iff_exists.mp (hends result hresult)
  rfl

example : (syncTogether {} [{ id := "web" }, { id := "db" }]).1 = [.ok {}, .ok {}] := by
  decide +kernel

end ControlPlane.Rehearsal
