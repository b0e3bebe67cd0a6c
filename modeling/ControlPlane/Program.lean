/-!
# Programs over an interface

A component of the control plane does not act by itself. It asks: the store, the container engine,
the clock. `Interface` lists the calls of such a partner with the type of each answer, and
`Program` is a finite piece of work that makes calls and goes on from their answers.

Because the calls are data, one program has many executions: on a store that works, on one that
fails where a plan says so, or interleaved call by call with other programs. `Program.run` executes
a program against a state; `Program.expand` replaces each call by a program over another interface.

## Main statements

* `run_bind`, `run_expand`: executing composes as the programs do.
-/

namespace ControlPlane

/-- The calls that a partner understands, with the type of its answer to each. What a partner does
is not said; that is what runs are about. -/
structure Interface where
  Call : Type
  Answer : Call → Type

/-- A finite piece of work that makes calls and goes on from their answers. It is a tree with one
branch for each answer, so what a program does is decided as soon as the answers are, and there is
nothing else that it could do. -/
inductive Program (I : Interface) (α : Type) where
  | done (result : α)
  | call (c : I.Call) (next : I.Answer c → Program I α)

namespace Program

variable {I J : Interface} {α β σ : Type}

/-- First the work of `p`, then what `f` makes of its result. -/
def bind : Program I α → (α → Program I β) → Program I β
  | done a, f => f a
  | call c next, f => call c fun answer => (next answer).bind f

instance : Monad (Program I) where
  pure := done
  bind := bind

/-- One call, with its answer as the result. -/
def ask (c : I.Call) : Program I (I.Answer c) :=
  call c done

@[simp] theorem pure_eq (a : α) : (pure a : Program I α) = done a := rfl

@[simp] theorem bind_eq (p : Program I α) (f : α → Program I β) : p >>= f = p.bind f := rfl

@[simp] theorem done_bind (a : α) (f : α → Program I β) : (done a).bind f = f a := rfl

@[simp] theorem call_bind (c : I.Call) (next : I.Answer c → Program I α) (f : α → Program I β) :
    (call c next).bind f = call c fun answer => (next answer).bind f := rfl

@[simp] theorem bind_done (p : Program I α) : p.bind done = p := by
  induction p with
  | done a => rfl
  | call c next ih => simp [ih]

theorem bind_assoc {γ : Type} (p : Program I α) (f : α → Program I β) (g : β → Program I γ) :
    (p.bind f).bind g = p.bind fun a => (f a).bind g := by
  induction p with
  | done a => rfl
  | call c next ih => simp [ih]

instance : LawfulMonad (Program I) :=
  LawfulMonad.mk' (Program I) (fun p => bind_done p) (fun _ _ => rfl)
    (fun p f g => bind_assoc p f g)

/-- Executes a program: `handle` answers a call and changes the state. It always comes to an end,
since programs are finite. -/
def run (handle : (c : I.Call) → σ → I.Answer c × σ) : Program I α → σ → α × σ
  | done a, s => (a, s)
  | call c next, s => (next (handle c s).1).run handle (handle c s).2

/-- The program with every call replaced by a program over another interface. Components are put
together by it, without either of them knowing the other. -/
def expand (f : (c : I.Call) → Program J (I.Answer c)) : Program I α → Program J α
  | done a => done a
  | call c next => (f c).bind fun answer => (next answer).expand f

theorem run_bind (handle : (c : I.Call) → σ → I.Answer c × σ) (p : Program I α)
    (f : α → Program I β) (s : σ) :
    (p.bind f).run handle s = (f (p.run handle s).1).run handle (p.run handle s).2 := by
  induction p generalizing s with
  | done a => rfl
  | call c next ih => exact ih _ _

theorem expand_bind (f : (c : I.Call) → Program J (I.Answer c)) (p : Program I α)
    (g : α → Program I β) :
    (p.bind g).expand f = (p.expand f).bind fun a => (g a).expand f := by
  induction p with
  | done a => rfl
  | call c next ih => simp [expand, ih, bind_assoc]

/-- Executing a program whose calls were expanded is executing it with expanded answers. What is
shown of a component against any partner therefore holds of it wherever it is used. -/
theorem run_expand (f : (c : I.Call) → Program J (I.Answer c))
    (handle : (c : J.Call) → σ → J.Answer c × σ) (p : Program I α) (s : σ) :
    (p.expand f).run handle s = p.run (fun c s => (f c).run handle s) s := by
  induction p generalizing s with
  | done a => rfl
  | call c next ih => simp only [expand, run_bind, run, ih]

end Program

end ControlPlane
