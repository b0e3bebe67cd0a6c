import ControlPlane.Proofs.Program.Ensures

/-!
# Two programs at once

Two programs that use the same partner make their calls in turns that nobody chooses. `Interleaves`
is such a run, call by call; one program after the other is one of the cases.

When the partner's state is a map, two programs get along if the calls that each of them makes, run
alone, read and write places of its own only. Then each one comes to what it comes to alone,
whatever the turns, and the places of each are left as it leaves them alone. It is not enough to
look at the calls that a program could make: which calls it makes depends on what it reads, and it
reads what it reads alone only as long as the other one keeps away. So the argument follows each
program beside its own run.

A partner is rarely a map. `Interleaves.image` carries a run over to another partner, to which it
looks the same. Answers may then hold less than they did, if the programs do not look at the rest.

## Main definitions

* `Program.Interleaves`, `Program.InTurn`: runs of two programs
* `Program.takeTurns`: a run with turns that are given
* `Program.Blind`: programs that look at a part of an answer only
* `Program.Local`: a call that keeps to some places of a map

## Main results

* `Program.Interleaves.image`: a run as another partner sees it
* `Program.Interleaves.apart`: what two programs come to that keep to places of their own
-/

namespace ControlPlane.Program

variable {I : Interface} {α β σ τ : Type}

/-- The runs of two programs at once: what is left of each, and the state there. -/
inductive Interleaves (step : I.Steps σ) (p : Program I α) (q : Program I β) (s : σ) :
    Program I α → Program I β → σ → Prop
  | start : Interleaves step p q s p q s
  | left {c : I.Call} {next : I.Answer c → Program I α} {q' : Program I β} {t u : σ}
      {a : I.Answer c} :
      Interleaves step p q s (call c next) q' t → step c t a u →
        Interleaves step p q s (next a) q' u
  | right {c : I.Call} {next : I.Answer c → Program I β} {p' : Program I α} {t u : σ}
      {a : I.Answer c} :
      Interleaves step p q s p' (call c next) t → step c t a u →
        Interleaves step p q s p' (next a) u

/-- One program runs to its end, and then another one does: their results, and the state there. -/
def InTurn (step : I.Steps σ) (p : Program I α) (q : Program I β) (s : σ) (a : α) (b : β) (t : σ) :
    Prop :=
  ∃ u, Reaches step p s (done a) u ∧ Reaches step q u (done b) t

section

variable {step : I.Steps σ} {p p' : Program I α} {q q' : Program I β} {s t : σ}

theorem Interleaves.symm (run : Interleaves step p q s p' q' t) :
    Interleaves step q p s q' p' t := by
  induction run with
  | start => exact .start
  | left _ hstep ih => exact .right ih hstep
  | right _ hstep ih => exact .left ih hstep

/-- One after the other is a way to take turns. -/
theorem InTurn.interleaves {a : α} {b : β} (h : InTurn step p q s a b t) :
    Interleaves step p q s (done a) (done b) t := by
  obtain ⟨u, hfirst, hsecond⟩ := h
  have hleft : ∀ {p' u}, Reaches step p s p' u → Interleaves step p q s p' q u := by
    intro p' u run
    induction run with
    | start => exact .start
    | call _ hstep ih => exact .left ih hstep
  have hright : ∀ {q' v}, Reaches step q u q' v → Interleaves step p q s (done a) q' v := by
    intro q' v run
    induction run with
    | start => exact hleft hfirst
    | call _ hstep ih => exact .right ih hstep
  exact hright hsecond

end

/-! ### Turns that are given

For a run that can be computed the turns are given as a list. A program that has ended lets its
turns pass. -/

/-- What is left of two programs after some turns, `true` for the first of them, and the state
there. -/
def takeTurns (handle : (c : I.Call) → σ → I.Answer c × σ) :
    List Bool → Program I α → Program I β → σ → Program I α × Program I β × σ
  | [], p, q, s => (p, q, s)
  | true :: turns, call c next, q, s =>
    takeTurns handle turns (next (handle c s).1) q (handle c s).2
  | false :: turns, p, call c next, s =>
    takeTurns handle turns p (next (handle c s).1) (handle c s).2
  | _ :: turns, p, q, s => takeTurns handle turns p q s

/-- The result of a program that has ended. -/
def result? : Program I α → Option α
  | done a => some a
  | call _ _ => none

theorem eq_done_of_result? {p : Program I α} {a : α} (h : p.result? = some a) : p = done a := by
  cases p with
  | done b => rw [Option.some.inj h]
  | call c next => cases h

theorem Interleaves.of_takeTurns {step : I.Steps σ} {handle : (c : I.Call) → σ → I.Answer c × σ}
    (h : ∀ c s, step c s (handle c s).1 (handle c s).2) {p p' : Program I α} {q q' : Program I β}
    {s t : σ} (run : Interleaves step p q s p' q' t) (turns : List Bool) :
    Interleaves step p q s (takeTurns handle turns p' q' t).1
      (takeTurns handle turns p' q' t).2.1 (takeTurns handle turns p' q' t).2.2 := by
  induction turns generalizing p' q' t with
  | nil => exact run
  | cons turn turns ih =>
    cases turn with
    | true =>
      cases p' with
      | done a => exact ih run
      | call c next => exact ih (run.left (h c t))
    | false =>
      cases q' with
      | done b => cases p' <;> exact ih run
      | call c next => cases p' <;> exact ih (run.right (h c t))

/-! ### What a program asks and looks at -/

/-- The program makes the call if it is answered in some way. -/
inductive MayAsk : Program I α → I.Call → Prop
  | first {c : I.Call} {next : I.Answer c → Program I α} : MayAsk (call c next) c
  | later {c c' : I.Call} {next : I.Answer c → Program I α} (a : I.Answer c) :
      MayAsk (next a) c' → MayAsk (call c next) c'

theorem Asks.of_mayAsk {may : I.Call → Prop} {post : α → Prop} {p : Program I α} {c : I.Call}
    (h : p.Asks may post) (hc : p.MayAsk c) : may c := by
  induction hc with
  | first => exact h.1
  | later a _ ih => exact ih (h.2 a)

theorem MayAsk.of_reaches {step : I.Steps σ} {p q : Program I α} {s t : σ}
    (run : Reaches step p s q t) {c : I.Call} (hc : q.MayAsk c) : p.MayAsk c := by
  induction run with
  | start => exact hc
  | call _ _ ih => exact ih (.later _ hc)

/-- Whatever is answered, only calls with `may` are made, and nothing of an answer is looked at but
what `bare` leaves of it. -/
def Blind (may : I.Call → Prop) (bare : (c : I.Call) → I.Answer c → I.Answer c) :
    Program I α → Prop
  | done _ => True
  | call c next => may c ∧ ∀ a, next a = next (bare c a) ∧ (next a).Blind may bare

theorem Blind.bind {may : I.Call → Prop} {bare : (c : I.Call) → I.Answer c → I.Answer c}
    {p : Program I α} {f : α → Program I β} (hp : p.Blind may bare)
    (hf : ∀ a, (f a).Blind may bare) : (p.bind f).Blind may bare := by
  induction p with
  | done a => exact hf a
  | call c next ih =>
    exact ⟨hp.1, fun a => ⟨congrArg (·.bind f) (hp.2 a).1, ih a (hp.2 a).2⟩⟩

/-- The steps of a partner that is a function. -/
def exactly (handle : (c : I.Call) → σ → I.Answer c × σ) : I.Steps σ :=
  fun c s a t => handle c s = (a, t)

/-- **A run as another partner sees it.** As long as calls are made in states that are `good`, each
of them looks to the other partner like one of its own. -/
theorem Interleaves.image {step : I.Steps σ} {handle : (c : I.Call) → τ → I.Answer c × τ}
    {view : σ → τ} {good : σ → Prop} {may : I.Call → Prop}
    {bare : (c : I.Call) → I.Answer c → I.Answer c} {p p' : Program I α} {q q' : Program I β}
    {s t : σ}
    (hstep : ∀ c u a v, may c → good u → step c u a v →
      good v ∧ handle c (view u) = (bare c a, view v))
    (hs : good s) (hp : p.Blind may bare) (hq : q.Blind may bare)
    (run : Interleaves step p q s p' q' t) :
    Interleaves (exactly handle) p q (view s) p' q' (view t) := by
  have hkept : good t ∧ p'.Blind may bare ∧ q'.Blind may bare ∧
      Interleaves (exactly handle) p q (view s) p' q' (view t) := by
    induction run with
    | start => exact ⟨hs, hp, hq, .start⟩
    | @left c next _ _ _ a _ hcall ih =>
      obtain ⟨hgood, hblind, hother, hrun⟩ := ih
      obtain ⟨hgood', hhandle⟩ := hstep _ _ _ _ hblind.1 hgood hcall
      refine ⟨hgood', (hblind.2 a).2, hother, ?_⟩
      rw [(hblind.2 a).1]
      exact .left hrun hhandle
    | @right c next _ _ _ a _ hcall ih =>
      obtain ⟨hgood, hother, hblind, hrun⟩ := ih
      obtain ⟨hgood', hhandle⟩ := hstep _ _ _ _ hblind.1 hgood hcall
      refine ⟨hgood', hother, (hblind.2 a).2, ?_⟩
      rw [(hblind.2 a).1]
      exact .right hrun hhandle
  exact hkept.2.2.2

/-! ### Maps -/

section

variable {κ ν : Type} {K L : κ → Prop} {handle : (c : I.Call) → (κ → ν) → I.Answer c × (κ → ν)}

/-- Two maps have the same in some places. -/
def Agree (K : κ → Prop) (x y : κ → ν) : Prop := ∀ k, K k → x k = y k

theorem Agree.trans {x y z : κ → ν} (h : Agree K x y) (h' : Agree K y z) : Agree K x z :=
  fun k hk => (h k hk).trans (h' k hk)

theorem Agree.symm {x y : κ → ν} (h : Agree K x y) : Agree K y x := fun k hk => (h k hk).symm

/-- A call keeps to some places: its answer and what it leaves there depend on nothing else, and
other places are left as they are. -/
structure Local (handle : (c : I.Call) → (κ → ν) → I.Answer c × (κ → ν)) (K : κ → Prop)
    (c : I.Call) : Prop where
  answer : ∀ {x y}, Agree K x y → (handle c x).1 = (handle c y).1
  effect : ∀ {x y}, Agree K x y → Agree K (handle c x).2 (handle c y).2
  frame : ∀ x k, ¬ K k → (handle c x).2 k = x k

/-- What is left of a program, in a state in which others may have made calls, is what would be left
of it if it ran alone: it stands beside a state of its own run, which is the same where the program
looks, and has the rest of that run before it. -/
def AsAlone (handle : (c : I.Call) → (κ → ν) → I.Answer c × (κ → ν)) (K : κ → Prop)
    (p : Program I α) (x : κ → ν) (p' : Program I α) (y : κ → ν) : Prop :=
  ∃ z, Agree K y z ∧ p'.run handle z = p.run handle x ∧
    ∀ e ∈ p'.asked handle z, Local handle K e.1

variable {p p' : Program I α} {q : Program I β} {x y : κ → ν}

theorem AsAlone.step {c : I.Call} {next : I.Answer c → Program I α}
    (h : AsAlone handle K p x (call c next) y) :
    AsAlone handle K p x (next (handle c y).1) (handle c y).2 := by
  obtain ⟨z, hagree, hrun, hlocal⟩ := h
  have hc : Local handle K c := hlocal (c, z) (List.mem_cons_self ..)
  rw [hc.answer hagree]
  refine ⟨(handle c z).2, hc.effect hagree, hrun, fun e he => ?_⟩
  exact hlocal e (List.mem_cons_of_mem _ he)

/-- Calls elsewhere are not noticed: a program goes on as if it were alone. -/
theorem AsAlone.other (h : AsAlone handle K p x p' y) {c : I.Call} (hc : Local handle L c)
    (hapart : ∀ k, K k → ¬ L k) : AsAlone handle K p x p' (handle c y).2 := by
  obtain ⟨z, hagree, hrest⟩ := h
  refine ⟨z, fun k hk => ?_, hrest⟩
  rw [hc.frame y k (hapart k hk), hagree k hk]

theorem AsAlone.keeps {c : I.Call} {next : I.Answer c → Program I α}
    (h : AsAlone handle K p x (call c next) y) : Local handle K c := by
  obtain ⟨z, -, -, hlocal⟩ := h
  exact hlocal (c, z) (List.mem_cons_self ..)

/-- At its end the program has come to what it comes to alone. -/
theorem AsAlone.done {a : α} (h : AsAlone handle K p x (done a) y) :
    a = (p.run handle x).1 ∧ Agree K y (p.run handle x).2 := by
  obtain ⟨z, hagree, hrun, -⟩ := h
  rw [← hrun]
  exact ⟨rfl, hagree⟩

/-- **Two programs that keep to places of their own** come to what they come to alone, whatever the
turns. Each leaves its own places as it leaves them alone, and other places are not touched. -/
theorem Interleaves.apart {a : α} {b : β} (hapart : ∀ k, K k → ¬ L k)
    (hp : ∀ e ∈ p.asked handle x, Local handle K e.1)
    (hq : ∀ e ∈ q.asked handle x, Local handle L e.1)
    (run : Interleaves (exactly handle) p q x (done a) (done b) y) :
    (a = (p.run handle x).1 ∧ Agree K y (p.run handle x).2) ∧
      (b = (q.run handle x).1 ∧ Agree L y (q.run handle x).2) ∧
      ∀ k, ¬ K k → ¬ L k → y k = x k := by
  have hkept : ∀ {p' q' y}, Interleaves (exactly handle) p q x p' q' y →
      AsAlone handle K p x p' y ∧ AsAlone handle L q x q' y ∧
        ∀ k, ¬ K k → ¬ L k → y k = x k := by
    intro p' q' y run
    induction run with
    | start => exact ⟨⟨x, fun _ _ => rfl, rfl, hp⟩, ⟨x, fun _ _ => rfl, rfl, hq⟩, fun _ _ _ => rfl⟩
    | @left c next _ t _ _ _ hcall ih =>
      obtain ⟨hown, hother, hframe⟩ := ih
      obtain ⟨rfl, rfl⟩ := Prod.mk.inj hcall
      refine ⟨hown.step, hother.other hown.keeps fun k hl hk => hapart k hk hl, fun k hk hl => ?_⟩
      rw [hown.keeps.frame t k hk, hframe k hk hl]
    | @right c next _ t _ _ _ hcall ih =>
      obtain ⟨hother, hown, hframe⟩ := ih
      obtain ⟨rfl, rfl⟩ := Prod.mk.inj hcall
      refine ⟨hother.other hown.keeps hapart, hown.step, fun k hk hl => ?_⟩
      rw [hown.keeps.frame t k hl, hframe k hk hl]
  obtain ⟨hleft, hright, hframe⟩ := hkept run
  exact ⟨hleft.done, hright.done, hframe⟩

/-- So all turns come to the same results and to the same state. -/
theorem Interleaves.unique {a a' : α} {b b' : β} {y' : κ → ν} (hapart : ∀ k, K k → ¬ L k)
    (hp : ∀ e ∈ p.asked handle x, Local handle K e.1)
    (hq : ∀ e ∈ q.asked handle x, Local handle L e.1)
    (run : Interleaves (exactly handle) p q x (done a) (done b) y)
    (run' : Interleaves (exactly handle) p q x (done a') (done b') y') :
    a = a' ∧ b = b' ∧ y = y' := by
  obtain ⟨⟨ha, hK⟩, ⟨hb, hL⟩, hframe⟩ := run.apart hapart hp hq
  obtain ⟨⟨ha', hK'⟩, ⟨hb', hL'⟩, hframe'⟩ := run'.apart hapart hp hq
  refine ⟨ha.trans ha'.symm, hb.trans hb'.symm, funext fun k => ?_⟩
  by_cases hk : K k
  · exact hK.trans hK'.symm k hk
  · by_cases hl : L k
    · exact hL.trans hL'.symm k hl
    · exact (hframe k hk hl).trans (hframe' k hk hl).symm

end

end ControlPlane.Program
