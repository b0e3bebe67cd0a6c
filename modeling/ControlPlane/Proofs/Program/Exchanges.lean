import ControlPlane.Proofs.Program.Ensures

/-!
# What a program asks and is told

Some statements are not about the state that a program leaves but about its calls: which ones it
makes, in which order, and what it makes of the answers. They hold whatever the partner is, so no
state of it should appear in them. An `Exchange` is a call with its answer, and `Program.Tells` is
the weakest precondition of a program against a partner that may answer anything, with a
postcondition on the result and on all exchanges from the first to the last.

Every pattern of failures is a pattern of answers. What a program tells of its exchanges therefore
holds of each of its runs, and `Program.Tells.of_run` says so for partners that are functions.

A driver that goes on for ever has no last exchange. What it does is said the other way round: its
log says which call is due, and `Program.Heeds` says that a round of the driver makes no other
calls, whatever is answered, and ends where the log says. A log of such calls is `AsDue`. Often not
the whole log matters but what is held because of it, and which calls that allows; such a protocol
is what `Program.Obeys` is about.

## Main definitions

* `Exchange`, a call with its answer
* `Program.exchanges`, the exchanges of a run on a partner that is a function
* `Program.Tells`, what is known of all exchanges, whatever is answered
* `Program.Heeds`, `AsDue`: every call is the one that is due after all exchanges before it
* `Program.Obeys`: every call is allowed in the state to which the exchanges before it have led

## Main results

* `Program.tells_bind`, `Work.tells_bind`: the rules of sequencing
* `Program.Tells.of_run`: what is told holds of every run
* `asDue_concat`: a log grows by calls that are due
-/

namespace ControlPlane

/-- A call with its answer. A log of exchanges tells all that a program can have seen. -/
structure Exchange (I : Interface) where
  call : I.Call
  answer : I.Answer call

namespace Program

variable {I J : Interface} {α β σ : Type}

/-- The exchanges of a program with a partner that is a function, in order. -/
def exchanges (handle : (c : I.Call) → σ → I.Answer c × σ) : Program I α → σ → List (Exchange I)
  | done _, _ => []
  | call c next, s =>
    ⟨c, (handle c s).1⟩ :: (next (handle c s).1).exchanges handle (handle c s).2

/-- Whatever is answered, the result and all the exchanges are as `post` says. -/
def Tells : Program I α → (α → List (Exchange I) → Prop) → Prop
  | done a, post => post a []
  | call c next, post => ∀ answer, (next answer).Tells fun a log => post a (⟨c, answer⟩ :: log)

theorem tells_ask {c : I.Call} {post : I.Answer c → List (Exchange I) → Prop} :
    (ask c).Tells post ↔ ∀ answer, post answer [⟨c, answer⟩] := Iff.rfl

theorem Tells.mono {p : Program I α} {m post : α → List (Exchange I) → Prop} (h : p.Tells m)
    (hpost : ∀ a log, m a log → post a log) : p.Tells post := by
  induction p generalizing m post with
  | done a => exact hpost a [] h
  | call c next ih => exact fun answer => ih answer (h answer) fun a log => hpost a _

/-- **Sequencing:** the exchanges of both parts follow each other. -/
theorem tells_bind {p : Program I α} {f : α → Program I β} {post : β → List (Exchange I) → Prop} :
    (p.bind f).Tells post ↔
      p.Tells fun a log => (f a).Tells fun b log' => post b (log ++ log') := by
  induction p generalizing post with
  | done a => exact Iff.rfl
  | call c next ih => exact forall_congr' fun answer => ih answer

theorem Tells.bind {p : Program I α} {f : α → Program I β} {m : α → List (Exchange I) → Prop}
    {post : β → List (Exchange I) → Prop} (hp : p.Tells m)
    (hf : ∀ a log, m a log → (f a).Tells fun b log' => post b (log ++ log')) :
    (p.bind f).Tells post :=
  tells_bind.mpr (hp.mono hf)

/-- Calls that are carried out by single calls of another partner. -/
theorem Tells.expand {f : (c : I.Call) → Program J (I.Answer c)} (carry : Exchange I → Exchange J)
    (hf : ∀ c (post : I.Answer c → List (Exchange J) → Prop),
      (∀ answer, post answer [carry ⟨c, answer⟩]) → (f c).Tells post)
    {p : Program I α} {m : α → List (Exchange I) → Prop} (h : p.Tells m) :
    (p.expand f).Tells fun a log => ∃ log', log = log'.map carry ∧ m a log' := by
  induction p generalizing m with
  | done a => exact ⟨[], rfl, h⟩
  | call c next ih =>
    refine tells_bind.mpr (hf c _ fun answer => (ih answer (h answer)).mono ?_)
    rintro a log ⟨log', rfl, hm⟩
    exact ⟨⟨c, answer⟩ :: log', rfl, hm⟩

/-- **What is told holds of every run,** whoever answers the calls and however. -/
theorem Tells.of_run {p : Program I α} {post : α → List (Exchange I) → Prop} (h : p.Tells post)
    (handle : (c : I.Call) → σ → I.Answer c × σ) (s : σ) :
    post (p.run handle s).1 (p.exchanges handle s) := by
  induction p generalizing post s with
  | done a => exact h
  | call c next ih => exact ih _ (h (handle c s).1) _

/-- Whatever is answered, each call is the one that is due after all exchanges before it, and the
result is as `post` says. -/
def Heeds (due : List (Exchange I) → I.Call) (post : α → List (Exchange I) → Prop) :
    Program I α → List (Exchange I) → Prop
  | done a, log => post a log
  | call c next, log => c = due log ∧ ∀ answer, (next answer).Heeds due post (log ++ [⟨c, answer⟩])

/-- Whatever is answered, only calls are made that are allowed in the state to which the exchanges
before them have led, and the result and the last state are as `post` says. -/
def Obeys (allows : σ → I.Call → Prop) (after : σ → (c : I.Call) → I.Answer c → σ)
    (post : α → σ → Prop) : Program I α → σ → Prop
  | done a, s => post a s
  | call c next, s =>
    allows s c ∧ ∀ answer, (next answer).Obeys allows after post (after s c answer)

section

variable {allows : σ → I.Call → Prop} {after : σ → (c : I.Call) → I.Answer c → σ} {s : σ}

theorem Obeys.bind {p : Program I α} {f : α → Program I β} {m : α → σ → Prop} {post : β → σ → Prop}
    (hp : p.Obeys allows after m s) (hf : ∀ a t, m a t → (f a).Obeys allows after post t) :
    (p.bind f).Obeys allows after post s := by
  induction p generalizing s with
  | done a => exact hf a s hp
  | call c next ih => exact ⟨hp.1, fun answer => ih answer (hp.2 answer)⟩

/-- A program that makes only calls which are allowed and lead nowhere keeps every such protocol. -/
theorem Asks.obeys {may : I.Call → Prop} {p : Program I α} {post : α → Prop} (h : p.Asks may post)
    (hallows : ∀ c, may c → allows s c) (hstay : ∀ c answer, may c → after s c answer = s) :
    p.Obeys allows after (fun a t => post a ∧ t = s) s := by
  induction p with
  | done a => exact ⟨h, rfl⟩
  | call c next ih =>
    refine ⟨hallows c h.1, fun answer => ?_⟩
    rw [hstay c answer h.1]
    exact ih answer (h.2 answer)

end

end Program

/-- Each call of a log is the one that is due after all exchanges before it. -/
def AsDue {I : Interface} (due : List (Exchange I) → I.Call) (log : List (Exchange I)) : Prop :=
  ∀ past e rest, log = past ++ e :: rest → e.call = due past

/-- What is true of each entry of a history and of what stands before it, as the history grows. -/
theorem forall_split_concat {α : Type} {P : List α → α → Prop} {l : List α} {last : α} :
    (∀ past a rest, l ++ [last] = past ++ a :: rest → P past a) ↔
      (∀ past a rest, l = past ++ a :: rest → P past a) ∧ P l last := by
  constructor
  · intro h
    refine ⟨fun past a rest hl => h past a (rest ++ [last]) ?_, h l last [] rfl⟩
    rw [hl, List.append_assoc, List.cons_append]
  · rintro ⟨hl, hlast⟩ past a rest hsplit
    rcases List.eq_nil_or_concat rest with rfl | ⟨rest, second, rfl⟩
    · obtain ⟨rfl, hsingle⟩ := List.append_inj' hsplit rfl
      obtain rfl : last = a := List.singleton_inj.mp hsingle
      exact hlast
    · rw [List.concat_eq_append, ← List.cons_append, ← List.append_assoc] at hsplit
      exact hl past a rest (List.append_inj_left' hsplit rfl)

/-- **A log grows by calls that are due.** With this an induction adds one exchange at the end at a
time, which is how a run grows. -/
theorem asDue_concat {I : Interface} {due : List (Exchange I) → I.Call} {log : List (Exchange I)}
    {e : Exchange I} : AsDue due (log ++ [e]) ↔ AsDue due log ∧ e.call = due log :=
  forall_split_concat

theorem AsDue.next {I : Interface} {due : List (Exchange I) → I.Call}
    {log past rest : List (Exchange I)} {e e' : Exchange I} (h : AsDue due log)
    (hlog : log = past ++ e :: e' :: rest) : e'.call = due (past ++ [e]) :=
  h (past ++ [e]) e' rest (by rw [hlog, List.append_assoc, List.singleton_append])

theorem AsDue.left {I : Interface} {due : List (Exchange I) → I.Call}
    {past rest : List (Exchange I)} (h : AsDue due (past ++ rest)) : AsDue due past := by
  intro past' e rest' hpast
  refine h past' e (rest' ++ rest) ?_
  rw [hpast, List.append_assoc, List.cons_append]

/-! ### Work that may fail -/

namespace Work

open Program

variable {I : Interface} {α β : Type}

/-- **Sequencing of work:** a failure is the last exchange. -/
theorem tells_bind {w : Work I α} {f : α → Work I β}
    {post : Except Error β → List (Exchange I) → Prop} :
    (w >>= f).run.Tells post ↔ w.run.Tells fun r log =>
      match r with
      | .ok a => (f a).run.Tells fun b log' => post b (log ++ log')
      | .error e => post (.error e) log := by
  change (Program.bind w.run (ExceptT.bindCont f)).Tells post ↔ _
  rw [Program.tells_bind]
  refine iff_of_eq (congrArg (w.run.Tells ·) (funext fun r => funext fun log => ?_))
  cases r with
  | ok a => rfl
  | error e => exact congrArg (post (.error e)) (List.append_nil log)

theorem tells_lift {p : Program I α} {post : Except Error α → List (Exchange I) → Prop} :
    (ExceptT.lift p : Work I α).run.Tells post ↔ p.Tells fun a log => post (.ok a) log := by
  change (Program.bind p fun a => done (.ok a)).Tells post ↔ _
  rw [Program.tells_bind]
  refine iff_of_eq (congrArg (p.Tells ·) (funext fun a => funext fun log => ?_))
  exact congrArg (post (.ok a)) (List.append_nil log)

end Work

end ControlPlane
