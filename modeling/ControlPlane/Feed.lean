/-!
# Feeds

A feed carries items from one writer to one reader through a bounded buffer. What is buffered can be
read after either end has let go; after that the feed has ended.

A writer who must not wait offers an item, which a full buffer refuses. A writer may ask for a stop
signal, to learn that the reader has left.
-/

namespace ControlPlane

/-- The signal by which the reader of a feed tells its writer that it has left. It is seen once: a
writer who has seen it is not told again. -/
inductive StopSignal where
  /-- The writer asked for none, and so is never told. -/
  | absent
  /-- The reader has not left. -/
  | armed
  /-- The reader has left, and the writer has not seen it. -/
  | sent
  /-- The reader has left, and the writer has seen it. -/
  | seen
deriving DecidableEq, Inhabited

/-- What became of an item that was offered. A full buffer and a feed that is closed are told apart,
since room may come back and the other end does not. -/
inductive Offered where
  | taken
  | full
  | closed
deriving DecidableEq, Inhabited

/-- What a reader finds. A reader who may wait goes on waiting when there is nothing, and stops when
the feed has ended. -/
inductive Received (α : Type) where
  | item (a : α)
  /-- Nothing yet, although something may come. -/
  | nothing
  /-- Nothing, and nothing to come. -/
  | ended
deriving DecidableEq, Inhabited

/-- A buffer between one writer and one reader. Each end lets go by itself, and neither ever has to
wait for the other to do so. -/
structure Feed (α : Type) where
  /-- How many items are buffered at most. It is fixed when the feed is made. -/
  capacity : Nat
  /-- The buffered items, oldest first. -/
  pending : List α := []
  /-- Whether the writer still has the feed, so that more may come. -/
  attached : Bool := true
  /-- Whether the reader still wants items. -/
  listening : Bool := true
  signal : StopSignal := .absent
deriving DecidableEq, Inhabited

namespace Feed

variable {α : Type}

/-- A feed that has ended, in which nothing is left to be read. It stands for feeds that do not
exist. -/
def finished : Feed α := { capacity := 0, attached := false, listening := false }

/-- Whether further items are wanted and may come. A feed that is not live may still have items to
be read. -/
def isLive (f : Feed α) : Bool := f.attached && f.listening

/-- Whether the buffer takes no further item. -/
def isFull (f : Feed α) : Bool := f.capacity ≤ f.pending.length

/-- Offers an item without waiting. That the feed is closed is found out before it matters whether
there is room. -/
def offer (f : Feed α) (a : α) : Offered × Feed α :=
  if !f.isLive then (.closed, f)
  else if f.isFull then (.full, f)
  else (.taken, { f with pending := f.pending ++ [a] })

/-- The feed after its writer has let go. What is buffered stays for the reader. -/
def detach (f : Feed α) : Feed α := { f with attached := false }

/-- Hands an item to the reader; the writer lets go of a feed that does not take it. So a reader
never misses an item in the middle: what is read is everything up to some item, and then the end. -/
def push (f : Feed α) (a : α) : Feed α :=
  match f.offer a with
  | (.taken, f) => f
  | (_, f) => f.detach

/-- What the reader finds next. The end is only found when nothing is buffered, whoever has let go.
-/
def receive (f : Feed α) : Received α × Feed α :=
  match f.pending with
  | a :: rest => (.item a, { f with pending := rest })
  | [] => (if f.isLive then .nothing else .ended, f)

/-- Everything that the reader finds until there is nothing more, and whether the feed has then
ended. -/
def drain (f : Feed α) : (List α × Bool) × Feed α :=
  ((f.pending, !f.isLive), { f with pending := [] })

/-- The feed after its reader has left. Leaving again changes nothing. -/
def stop (f : Feed α) : Feed α :=
  { f with listening := false, signal := if f.signal = .armed then .sent else f.signal }

/-- What the writer sees of the stop signal, which it then has seen. -/
def checkSignal (f : Feed α) : StopSignal × Feed α :=
  (f.signal, { f with signal := if f.signal = .sent then .seen else f.signal })

/-! ### Lemmas -/

@[simp] theorem capacity_push (f : Feed α) (a : α) : (f.push a).capacity = f.capacity := by
  unfold push offer
  split <;> split at * <;> grind [detach]

/-- An item is appended or, by a feed that is not live or full, left out. Nothing that is buffered
is ever lost by it. -/
theorem pending_push (f : Feed α) (a : α) :
    (f.push a).pending = if f.isLive && !f.isFull then f.pending ++ [a] else f.pending := by
  unfold push offer
  split <;> grind [detach]

/-- The buffer never exceeds its capacity, whatever is pushed. -/
theorem length_pending_push (f : Feed α) (a : α) (h : f.pending.length ≤ f.capacity) :
    (f.push a).pending.length ≤ f.capacity := by
  rw [pending_push]
  grind [isFull]

end Feed

end ControlPlane
