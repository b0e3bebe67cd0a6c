import ControlPlane.Work

/-!
# What a program ensures

A partner is more than a function: the store may be asked at any moment and may fail, another writer
may act between two calls. `Interface.Steps` therefore says which answers a partner *may* give, and
`Program.Ensures` is the weakest precondition of a program against such a partner: whatever it
answers, an invariant holds in every state between two calls and the program ends as a postcondition
says.

Since programs are finite, every run ends and nothing has to be said about termination. What has to
be said is what holds in the middle of a run, because that is where other readers look at the store;
this is why the invariant is part of the definition and not an instance of the postcondition.

## Main definitions

* `Program.Ensures`, the weakest precondition
* `Program.Reaches`, the runs themselves, call by call
* `Program.asked`, the calls of a run on a partner that is a function
* `Program.Asks`, the calls that a program may make at all
* `Program.recording`, a partner that writes calls down

## Main results

* `Program.ensures_bind`, `Work.ensures_bind`: the rules of sequencing
* `Program.Ensures.of_reaches`: what is ensured holds along every run
* `Program.Ensures.of_run`: and for the one run on a partner that is a function
-/

namespace ControlPlane

/-- What a partner may do: `step c s a t` says that it may answer the call `c`, made in the state
`s`, by `a`, and is in the state `t` then. -/
abbrev Interface.Steps (I : Interface) (σ : Type) : Type :=
  (c : I.Call) → σ → I.Answer c → σ → Prop

namespace Program

variable {I J : Interface} {α β σ : Type}

/-- Started in a state, the program keeps `inv` in every state, also between two calls, and ends as
`post` says, whatever the partner answers. -/
def Ensures (step : I.Steps σ) (inv : σ → Prop) (post : α → σ → Prop) : Program I α → σ → Prop
  | done a, s => inv s ∧ post a s
  | call c next, s => inv s ∧ ∀ a t, step c s a t → (next a).Ensures step inv post t

section

variable {step : I.Steps σ} {inv : σ → Prop} {post m : α → σ → Prop} {p : Program I α} {s : σ}

@[simp] theorem ensures_done {a : α} :
    (done a : Program I α).Ensures step inv post s ↔ inv s ∧ post a s := Iff.rfl

@[simp] theorem ensures_call {c : I.Call} {next : I.Answer c → Program I α} :
    (call c next).Ensures step inv post s ↔
      inv s ∧ ∀ a t, step c s a t → (next a).Ensures step inv post t := Iff.rfl

theorem ensures_ask {c : I.Call} {post : I.Answer c → σ → Prop} :
    (ask c).Ensures step inv post s ↔ inv s ∧ ∀ a t, step c s a t → inv t ∧ post a t := Iff.rfl

theorem Ensures.invariant (h : p.Ensures step inv post s) : inv s := by
  cases p with
  | done a => exact h.1
  | call c next => exact h.1

/-- The postcondition may be weakened, and the invariant is known where the program ends. -/
theorem Ensures.mono (h : p.Ensures step inv m s) (hpost : ∀ a t, inv t → m a t → post a t) :
    p.Ensures step inv post s := by
  induction p generalizing s with
  | done a => exact ⟨h.1, hpost a s h.1 h.2⟩
  | call c next ih => exact ⟨h.1, fun a t hstep => ih a (h.2 a t hstep)⟩

theorem Ensures.mono_invariant {inv' : σ → Prop} (h : p.Ensures step inv post s)
    (hinv : ∀ t, inv t → inv' t) : p.Ensures step inv' post s := by
  induction p generalizing s with
  | done a => exact ⟨hinv s h.1, h.2⟩
  | call c next ih => exact ⟨hinv s h.1, fun a t hstep => ih a (h.2 a t hstep)⟩

/-- **Sequencing.** What is ensured of the rest is what the first part has to end with. -/
theorem ensures_bind {f : α → Program I β} {post : β → σ → Prop} :
    (p.bind f).Ensures step inv post s ↔
      p.Ensures step inv (fun a t => (f a).Ensures step inv post t) s := by
  induction p generalizing s with
  | done a => exact ⟨fun h => ⟨h.invariant, h⟩, fun h => h.2⟩
  | call c next ih =>
    exact and_congr_right fun _ => forall_congr' fun a => forall_congr' fun t =>
      imp_congr_right fun _ => ih a

theorem Ensures.bind {f : α → Program I β} {post : β → σ → Prop} (hp : p.Ensures step inv m s)
    (hf : ∀ a t, inv t → m a t → (f a).Ensures step inv post t) :
    (p.bind f).Ensures step inv post s :=
  ensures_bind.mpr (hp.mono hf)

/-- Sequencing, with calls that are carried out by programs over another interface. -/
theorem ensures_expand_bind {step' : J.Steps σ} {g : (c : I.Call) → Program J (I.Answer c)}
    {f : α → Program I β} {post : β → σ → Prop} :
    ((p.bind f).expand g).Ensures step' inv post s ↔
      (p.expand g).Ensures step' inv (fun a t => ((f a).expand g).Ensures step' inv post t) s := by
  rw [expand_bind, ensures_bind]

theorem ensures_expand_ask {step' : J.Steps σ} {g : (c : I.Call) → Program J (I.Answer c)}
    {c : I.Call}
    {post : I.Answer c → σ → Prop} :
    ((ask c).expand g).Ensures step' inv post s ↔ (g c).Ensures step' inv post s := by
  rw [ask, expand, show (fun a => (done a).expand g) = done from rfl, bind_done]

/-- Calls that are carried out by single calls of another partner change nothing. -/
theorem ensures_expand {step' : J.Steps σ} {f : (c : I.Call) → Program J (I.Answer c)}
    (hf : ∀ c (inv : σ → Prop) (post : I.Answer c → σ → Prop) s,
      (f c).Ensures step' inv post s ↔ inv s ∧ ∀ a t, step c s a t → inv t ∧ post a t) :
    (p.expand f).Ensures step' inv post s ↔ p.Ensures step inv post s := by
  induction p generalizing s with
  | done a => exact Iff.rfl
  | call c next ih =>
    rw [expand, ensures_bind, hf, ensures_call]
    refine and_congr_right fun _ => forall_congr' fun a => forall_congr' fun t =>
      imp_congr_right fun _ => ?_
    rw [ih a]
    exact ⟨fun h => h.2, fun h => ⟨h.invariant, h⟩⟩

end

/-! ### Runs -/

/-- The run of a program against a partner, call by call: what is left of the program, and the state
there. -/
inductive Reaches (step : I.Steps σ) (p : Program I α) (s : σ) : Program I α → σ → Prop
  | start : Reaches step p s p s
  | call {c : I.Call} {next : I.Answer c → Program I α} {t u : σ} {a : I.Answer c} :
      Reaches step p s (call c next) t → step c t a u → Reaches step p s (next a) u

theorem Reaches.trans {step : I.Steps σ} {p q r : Program I α} {s t u : σ}
    (run : Reaches step p s q t) (run' : Reaches step q t r u) : Reaches step p s r u := by
  induction run' with
  | start => exact run
  | call _ hstep ih => exact .call ih hstep

/-- A run goes on behind the end of its program. -/
theorem Reaches.bind {step : I.Steps σ} {p q : Program I α} {f : α → Program I β} {s t : σ}
    (run : Reaches step p s q t) : Reaches step (p.bind f) s (q.bind f) t := by
  induction run with
  | start => exact .start
  | call _ hstep ih => exact .call ih hstep

theorem Reaches.of_done {step : I.Steps σ} {a : α} {q : Program I α} {s t : σ}
    (run : Reaches step (done a) s q t) : q = done a ∧ t = s := by
  induction run with
  | start => exact ⟨rfl, rfl⟩
  | call _ _ ih => cases ih.1

/-- A run that is not at its beginning any more has made the first call. -/
theorem Reaches.first {step : I.Steps σ} {c : I.Call} {next : I.Answer c → Program I α}
    {q : Program I α} {s t : σ} (run : Reaches step (Program.call c next) s q t) :
    (q = Program.call c next ∧ t = s) ∨ ∃ a u, step c s a u ∧ Reaches step (next a) u q t := by
  induction run with
  | start => exact .inl ⟨rfl, rfl⟩
  | call _ hstep ih =>
    rcases ih with ⟨hcall, rfl⟩ | ⟨a, u, hfirst, hrest⟩
    · cases hcall
      exact .inr ⟨_, _, hstep, .start⟩
    · exact .inr ⟨a, u, hfirst, .call hrest hstep⟩

/-- A program has one result on a partner that leaves no choice. -/
theorem Reaches.unique {step : I.Steps σ}
    (hstep : ∀ {c s a t a' t'}, step c s a t → step c s a' t' → a = a' ∧ t = t')
    {p : Program I α} {s t t' : σ} {b b' : α} (run : Reaches step p s (done b) t)
    (run' : Reaches step p s (done b') t') : b = b' ∧ t = t' := by
  induction p generalizing s with
  | done a =>
    obtain ⟨hb, rfl⟩ := run.of_done
    obtain ⟨hb', rfl⟩ := run'.of_done
    exact ⟨(done.inj hb).trans (done.inj hb').symm, rfl⟩
  | call c next ih =>
    rcases run.first with ⟨hcall, -⟩ | ⟨a, u, hfirst, hrest⟩
    · cases hcall
    rcases run'.first with ⟨hcall, -⟩ | ⟨a', u', hfirst', hrest'⟩
    · cases hcall
    obtain ⟨rfl, rfl⟩ := hstep hfirst hfirst'
    exact ih a hrest hrest'

section

variable {step : I.Steps σ} {inv : σ → Prop} {post : α → σ → Prop} {p q : Program I α} {s t : σ}

/-- **What is ensured at the beginning is ensured along the whole run.** -/
theorem Ensures.of_reaches (h : p.Ensures step inv post s) (run : Reaches step p s q t) :
    q.Ensures step inv post t := by
  induction run with
  | start => exact h
  | call _ hstep ih => exact ih.2 _ _ hstep

/-- The invariant holds in every state of a run. -/
theorem Ensures.invariant_of_reaches (h : p.Ensures step inv post s) (run : Reaches step p s q t) :
    inv t :=
  (h.of_reaches run).invariant

/-- A run that has ended has ended as the postcondition says. -/
theorem Ensures.post_of_reaches {a : α} (h : p.Ensures step inv post s)
    (run : Reaches step p s (done a) t) : post a t :=
  (h.of_reaches run).2

end

/-! ### What a program asks

Some programs are known only by the calls that they make, because they can be chosen freely. -/

/-- Whatever is answered, only calls with `may` are made, and every result satisfies `post`. -/
def Asks (may : I.Call → Prop) (post : α → Prop) : Program I α → Prop
  | done a => post a
  | call c next => may c ∧ ∀ a, (next a).Asks may post

theorem asks_ask {may : I.Call → Prop} {c : I.Call} {post : I.Answer c → Prop} :
    (ask c).Asks may post ↔ may c ∧ ∀ a, post a := Iff.rfl

theorem Asks.mono {may : I.Call → Prop} {p : Program I α} {m post : α → Prop} (h : p.Asks may m)
    (hpost : ∀ a, m a → post a) : p.Asks may post := by
  induction p with
  | done a => exact hpost a h
  | call c next ih => exact ⟨h.1, fun a => ih a (h.2 a)⟩

theorem Asks.mono_calls {may may' : I.Call → Prop} {p : Program I α} {post : α → Prop}
    (h : p.Asks may post) (hmay : ∀ c, may c → may' c) : p.Asks may' post := by
  induction p with
  | done a => exact h
  | call c next ih => exact ⟨hmay c h.1, fun a => ih a (h.2 a)⟩

theorem asks_bind {may : I.Call → Prop} {p : Program I α} {f : α → Program I β} {post : β → Prop} :
    (p.bind f).Asks may post ↔ p.Asks may fun a => (f a).Asks may post := by
  induction p with
  | done a => exact Iff.rfl
  | call c next ih => exact and_congr_right fun _ => forall_congr' fun a => ih a

/-- Calls that are carried out by single calls of another partner. -/
theorem asks_expand {may : I.Call → Prop} {may' : J.Call → Prop}
    {f : (c : I.Call) → Program J (I.Answer c)} {p : Program I α} {post : α → Prop}
    (hf : ∀ c (post : I.Answer c → Prop), may c → (∀ a, post a) → (f c).Asks may' post)
    (h : p.Asks may post) : (p.expand f).Asks may' post := by
  induction p with
  | done a => exact h
  | call c next ih => exact asks_bind.mpr (hf c _ h.1 fun a => ih a (h.2 a))

/-- What every single call keeps that is made is kept by the program. -/
theorem Asks.ensures_kept {step : I.Steps σ} {inv : σ → Prop} {may : I.Call → Prop}
    {post : α → Prop} {p : Program I α} {s : σ} (h : p.Asks may post) (hinv : inv s)
    (hkeep : ∀ c s a t, may c → step c s a t → inv s → inv t) :
    p.Ensures step inv (fun a _ => post a) s := by
  induction p generalizing s with
  | done a => exact ⟨hinv, h⟩
  | call c next ih =>
    exact ⟨hinv, fun a t hstep => ih a (h.2 a) (hkeep c s a t h.1 hstep hinv)⟩

/-- What is ensured of every single call that is made is ensured of the program, if these calls keep
the state. -/
theorem Asks.ensures {step : I.Steps σ} {inv : σ → Prop} {may : I.Call → Prop} {post : α → Prop}
    {p : Program I α} {s : σ} (h : p.Asks may post) (hinv : inv s)
    (hkeep : ∀ c a t, may c → step c s a t → t = s) :
    p.Ensures step inv (fun a t => t = s ∧ post a) s := by
  have hstay : p.Ensures step (fun t => t = s) (fun a _ => post a) s := by
    refine h.ensures_kept rfl ?_
    rintro c _ a t hmay hstep rfl
    exact hkeep c a t hmay hstep
  exact (hstay.mono fun a t ht ha => ⟨ht, ha⟩).mono_invariant fun t ht => ht ▸ hinv

/-- Calls that are carried out by acceptable calls, whichever they are. -/
theorem asks_expand_of_forall {may : J.Call → Prop} {f : (c : I.Call) → Program J (I.Answer c)}
    (hf : ∀ c (post : I.Answer c → Prop), (∀ a, post a) → (f c).Asks may post)
    (p : Program I α) : (p.expand f).Asks may fun _ => True := by
  induction p with
  | done a => trivial
  | call c next ih => exact asks_bind.mpr (hf c _ ih)

/-! ### Writing calls down -/

/-- The steps of a partner, with the calls written down that are of interest. -/
def recording (notable : I.Call → Bool) (step : I.Steps σ) : I.Steps (σ × List I.Call) :=
  fun c s a t => step c s.1 a t.1 ∧ t.2 = if notable c then s.2 ++ [c] else s.2

/-- A program that makes no such call adds none, and does what it does anyway. -/
theorem Ensures.recording {notable : I.Call → Bool} {step : I.Steps σ} {inv : σ → Prop}
    {post : α → σ → Prop} {p : Program I α} {s : σ} {calls : List I.Call}
    (h : p.Ensures step inv post s)
    (hasks : p.Asks (fun c => notable c = false) fun _ => True) :
    p.Ensures (Program.recording notable step) (fun x => inv x.1 ∧ x.2 = calls)
      (fun a x => post a x.1) (s, calls) := by
  induction p generalizing s with
  | done a => exact ⟨⟨h.1, rfl⟩, h.2⟩
  | call c next ih =>
    refine ⟨⟨h.1, rfl⟩, ?_⟩
    rintro a ⟨t, calls'⟩ ⟨hstep, hcalls⟩
    rw [hasks.1, if_neg Bool.false_ne_true] at hcalls
    obtain rfl : calls' = calls := hcalls
    exact ih a (h.2 a t hstep) (hasks.2 a)

/-! ### Partners that are functions -/

/-- The calls that a program makes of a partner that is a function, each with the state in which it
is made. -/
def asked (handle : (c : I.Call) → σ → I.Answer c × σ) : Program I α → σ → List (I.Call × σ)
  | done _, _ => []
  | call c next, s => (c, s) :: (next (handle c s).1).asked handle (handle c s).2

theorem Reaches.of_call {step : I.Steps σ} {c : I.Call} {next : I.Answer c → Program I α}
    {q : Program I α} {s t u : σ} {a : I.Answer c} (hstep : step c s a t)
    (run : Reaches step (next a) t q u) : Reaches step (Program.call c next) s q u := by
  induction run with
  | start => exact .call .start hstep
  | call _ hlast ih => exact .call ih hlast

/-- A run of two parts that has ended has ended the first part before. -/
theorem Reaches.of_bind {step : I.Steps σ} {p : Program I α} {f : α → Program I β} {b : β}
    {s t : σ} (run : Reaches step (p.bind f) s (done b) t) :
    ∃ a u, Reaches step p s (done a) u ∧ Reaches step (f a) u (done b) t := by
  induction p generalizing s with
  | done a => exact ⟨a, s, .start, run⟩
  | call c next ih =>
    rcases run.first with ⟨hcall, -⟩ | ⟨answer, u, hfirst, hrest⟩
    · cases hcall
    · obtain ⟨a, v, hp, hf⟩ := ih answer hrest
      exact ⟨a, v, .of_call hfirst hp, hf⟩

/-- The run on a function is a run on every partner that may do what the function does in it. -/
theorem Reaches.of_asked {step : I.Steps σ} {handle : (c : I.Call) → σ → I.Answer c × σ}
    {p : Program I α} {s : σ}
    (h : ∀ x ∈ p.asked handle s, step x.1 x.2 (handle x.1 x.2).1 (handle x.1 x.2).2) :
    Reaches step p s (done (p.run handle s).1) (p.run handle s).2 := by
  induction p generalizing s with
  | done a => exact .start
  | call c next ih =>
    refine .of_call (h (c, s) (List.mem_cons_self ..)) (ih (handle c s).1 ?_)
    exact fun x hx => h x (List.mem_cons_of_mem _ hx)

/-- The run on a function is a run on every partner that may do what the function does. -/
theorem Reaches.of_run {step : I.Steps σ} {handle : (c : I.Call) → σ → I.Answer c × σ}
    (h : ∀ c s, step c s (handle c s).1 (handle c s).2) (p : Program I α) (s : σ) :
    Reaches step p s (done (p.run handle s).1) (p.run handle s).2 :=
  .of_asked fun x _ => h x.1 x.2

/-- The steps of a partner that is a function, as far as calls are acceptable in the state in which
they are made. The calls are written down. -/
def stepsOf (handle : (c : I.Call) → σ → I.Answer c × σ) (accepts : I.Call → σ → Prop) :
    I.Steps (σ × List I.Call) :=
  fun c s a t => accepts c s.1 ∧ handle c s.1 = (a, t.1) ∧ t.2 = s.2 ++ [c]

/-- The one run on a partner that is a function ends as is ensured, if the partner accepts the calls
of that run. -/
theorem Ensures.of_run {handle : (c : I.Call) → σ → I.Answer c × σ}
    {accepts : I.Call → σ → Prop} {inv : σ × List I.Call → Prop}
    {post : α → σ × List I.Call → Prop} {p : Program I α} {s : σ} {calls : List I.Call}
    (h : p.Ensures (stepsOf handle accepts) inv post (s, calls))
    (hcalls : ∀ x ∈ p.asked handle s, accepts x.1 x.2) :
    post (p.run handle s).1 ((p.run handle s).2, calls ++ (p.asked handle s).map Prod.fst) := by
  induction p generalizing s calls with
  | done a => simpa [run, asked] using h.2
  | call c next ih =>
    have haccept : accepts c s := hcalls (c, s) (List.mem_cons_self ..)
    have hnext := h.2 (handle c s).1 ((handle c s).2, calls ++ [c]) ⟨haccept, rfl, rfl⟩
    have hrest := ih _ hnext fun x hx => hcalls x (List.mem_cons_of_mem _ hx)
    simpa [run, asked] using hrest

end Program

/-! ### Work that may fail -/

namespace Work

open Program

variable {I : Interface} {α β σ : Type} {step : I.Steps σ} {inv : σ → Prop} {s : σ}

/-- The second part of some work runs on what the first comes to. -/
theorem run_bind_eq {handle : (c : I.Call) → σ → I.Answer c × σ} {w : Work I α} {t : σ}
    {r : Except Error α} (h : w.run.run handle s = (r, t)) (f : α → Work I β) :
    (w >>= f).run.run handle s = (ExceptT.bindCont f r).run handle t := by
  change (Program.bind w.run (ExceptT.bindCont f)).run handle s = _
  rw [run_bind, h]

/-- **Sequencing of work:** a failure ends it. -/
theorem ensures_bind {w : Work I α} {f : α → Work I β} {post : Except Error β → σ → Prop} :
    (w >>= f).run.Ensures step inv post s ↔
      w.run.Ensures step inv (fun r t =>
        match r with
        | .ok a => (f a).run.Ensures step inv post t
        | .error e => post (.error e) t) s := by
  change (Program.bind w.run (ExceptT.bindCont f)).Ensures step inv post s ↔ _
  rw [Program.ensures_bind]
  constructor
  · refine fun h => h.mono fun r t _ hr => ?_
    cases r with
    | ok a => exact hr
    | error e => exact hr.2
  · refine fun h => h.mono fun r t hinv hr => ?_
    cases r with
    | ok a => exact hr
    | error e => exact ⟨hinv, hr⟩

/-- Sequencing of work, with a midcondition for each ending. -/
theorem Ensures.bind {w : Work I α} {f : α → Work I β} {m : Except Error α → σ → Prop}
    {post : Except Error β → σ → Prop} (hw : w.run.Ensures step inv m s)
    (hok : ∀ a t, inv t → m (.ok a) t → (f a).run.Ensures step inv post t)
    (herror : ∀ e t, inv t → m (.error e) t → post (.error e) t) :
    (w >>= f).run.Ensures step inv post s := by
  refine ensures_bind.mpr (hw.mono fun r t hinv hr => ?_)
  cases r with
  | ok a => exact hok a t hinv hr
  | error e => exact herror e t hinv hr

@[simp] theorem ensures_pure {a : α} {post : Except Error α → σ → Prop} :
    (pure a : Work I α).run.Ensures step inv post s ↔ inv s ∧ post (.ok a) s := Iff.rfl

@[simp] theorem ensures_throw {e : Error} {post : Except Error α → σ → Prop} :
    (throw e : Work I α).run.Ensures step inv post s ↔ inv s ∧ post (.error e) s := Iff.rfl

theorem ensures_lift {p : Program I α} {post : Except Error α → σ → Prop} :
    (ExceptT.lift p : Work I α).run.Ensures step inv post s ↔
      p.Ensures step inv (fun a t => post (.ok a) t) s := by
  change (Program.bind p fun a => done (.ok a)).Ensures step inv post s ↔ _
  rw [Program.ensures_bind]
  exact ⟨fun h => h.mono fun _ _ _ ha => ha.2, fun h => h.mono fun _ _ hinv ha => ⟨hinv, ha⟩⟩

theorem ensures_map {f : α → β} {w : Work I α} {post : Except Error β → σ → Prop} :
    (f <$> w).run.Ensures step inv post s ↔
      w.run.Ensures step inv (fun r t => post (r.map f) t) s := by
  change (w >>= fun a => pure (f a)).run.Ensures step inv post s ↔ _
  rw [ensures_bind]
  constructor
  · refine fun h => h.mono fun r t _ hr => ?_
    cases r with
    | ok a => exact hr.2
    | error e => exact hr
  · refine fun h => h.mono fun r t hinv hr => ?_
    cases r with
    | ok a => exact ⟨hinv, hr⟩
    | error e => exact hr

theorem asks_bind {may : I.Call → Prop} {w : Work I α} {f : α → Work I β}
    {post : Except Error β → Prop} :
    (w >>= f).run.Asks may post ↔ w.run.Asks may fun r =>
      match r with
      | .ok a => (f a).run.Asks may post
      | .error e => post (.error e) := by
  change (Program.bind w.run (ExceptT.bindCont f)).Asks may post ↔ _
  rw [Program.asks_bind]
  refine iff_of_eq (congrArg (fun post => w.run.Asks may post) (funext fun r => ?_))
  cases r <;> rfl

/-! ### Work through another interface -/

/-- A sequence goes through another interface piece by piece. -/
theorem through_bind {J : Interface} (f : (c : I.Call) → Program J (I.Answer c)) (w : Work I α)
    (g : α → Work I β) : (w >>= g).through f = w.through f >>= fun a => (g a).through f := by
  change (Program.bind w.run (ExceptT.bindCont g)).expand f = _
  rw [Program.expand_bind]
  change _ = Program.bind (w.run.expand f) (ExceptT.bindCont fun a => (g a).through f)
  congr 1
  funext r
  cases r <;> rfl

/-- Sequencing of work, with calls that are carried out by programs over another interface. -/
theorem ensures_through_bind {J : Interface} {step : J.Steps σ}
    {f : (c : I.Call) → Program J (I.Answer c)} {w : Work I α} {g : α → Work I β}
    {post : Except Error β → σ → Prop} :
    ((w >>= g).through f).run.Ensures step inv post s ↔
      (w.through f).run.Ensures step inv (fun r t =>
        match r with
        | .ok a => ((g a).through f).run.Ensures step inv post t
        | .error e => post (.error e) t) s := by
  rw [through_bind, ensures_bind]

theorem ensures_through_lift {J : Interface} {step : J.Steps σ}
    {f : (c : I.Call) → Program J (I.Answer c)} {p : Program I α}
    {post : Except Error α → σ → Prop} :
    (Work.through f (ExceptT.lift p : Work I α)).run.Ensures step inv post s ↔
      (p.expand f).Ensures step inv (fun a t => post (.ok a) t) s := by
  change ((Program.bind p fun a => done (Except.ok a)).expand f).Ensures step inv post s ↔ _
  rw [Program.ensures_expand_bind]
  exact ⟨fun h => h.mono fun _ _ _ ha => ha.2, fun h => h.mono fun _ _ hinv ha => ⟨hinv, ha⟩⟩

/-- What becomes of an ending when absence is taken for a normal state. -/
def noneIfAbsent : Except Error α → Except Error (Option α)
  | .ok a => .ok (some a)
  | .error e => if e.isNotFound then .ok none else .error e

theorem run_orNone (w : Work I α) : w.orNone.run = w.run.bind fun r => done (noneIfAbsent r) := by
  change Program.bind (Program.bind w.run _) _ = _
  rw [Program.bind_assoc]
  congr 1
  funext r
  cases r with
  | ok a => rfl
  | error e =>
    change (if e.isNotFound then pure none else throw e : Work I (Option α)).run = _
    simp only [noneIfAbsent]
    split <;> rfl

/-- Absence is turned into `none`; everything else stays as it is. -/
theorem ensures_orNone {w : Work I α} {post : Except Error (Option α) → σ → Prop} :
    w.orNone.run.Ensures step inv post s ↔
      w.run.Ensures step inv (fun r t => post (noneIfAbsent r) t) s := by
  rw [run_orNone, Program.ensures_bind]
  exact ⟨fun h => h.mono fun _ _ _ hr => hr.2, fun h => h.mono fun _ _ hinv hr => ⟨hinv, hr⟩⟩

theorem asks_orNone {may : I.Call → Prop} {w : Work I α} {post : Except Error (Option α) → Prop} :
    w.orNone.run.Asks may post ↔ w.run.Asks may fun r => post (noneIfAbsent r) := by
  rw [run_orNone]
  exact Program.asks_bind

end Work

end ControlPlane
