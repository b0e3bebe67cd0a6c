import ControlPlane.Feed
import Mathlib.Tactic.Set

/-!
# Handing a batch to a feed

A writer that does not wait hands a batch of items to a feed one by one. Either the whole batch fits
into the buffer, or an item in its middle finds the buffer full and ends the feed, so that the rest
of the batch is lost with it. There is no third way: nothing is left out of what is buffered.

## Main results

* `Feed.foldl_push_of_fits`, `Feed.foldl_push_of_overflows`: the two ways
* `Feed.fits_or_overflows`
-/

namespace ControlPlane.Feed

variable {α : Type} {f : Feed α} {l pre post : List α} {a : α}

theorem push_of_ended (h : f.isLive = false) (a : α) : f.push a = f.detach := by
  simp [push, offer, h]

theorem push_of_full (hlive : f.isLive = true) (hfull : f.isFull = true) (a : α) :
    f.push a = f.detach := by
  simp [push, offer, hlive, hfull]

theorem push_of_room (hlive : f.isLive = true) (hroom : f.pending.length < f.capacity) (a : α) :
    f.push a = { f with pending := f.pending ++ [a] } := by
  have hfull : f.isFull = false := decide_eq_false (Nat.not_le.mpr hroom)
  simp [push, offer, hlive, hfull]

@[simp] theorem capacity_foldl_push (l : List α) (f : Feed α) :
    (l.foldl push f).capacity = f.capacity := by
  induction l generalizing f with
  | nil => rfl
  | cons a l ih => rw [List.foldl_cons, ih, capacity_push]

theorem foldl_push_of_ended (h : f.isLive = false) (l : List α) :
    (l.foldl push f).pending = f.pending ∧ (l.foldl push f).isLive = false := by
  induction l generalizing f with
  | nil => exact ⟨rfl, h⟩
  | cons a l ih =>
    rw [List.foldl_cons, push_of_ended h]
    exact ih (f := f.detach) rfl

/-- **A batch that fits is buffered** as a whole and in its order. -/
theorem foldl_push_of_fits (hlive : f.isLive = true)
    (hfits : f.pending.length + l.length ≤ f.capacity) :
    l.foldl push f = { f with pending := f.pending ++ l } := by
  induction l generalizing f with
  | nil => simp
  | cons a l ih =>
    have hlength : f.pending.length + l.length + 1 ≤ f.capacity := hfits
    rw [List.foldl_cons, push_of_room hlive (by omega),
      ih (f := { f with pending := f.pending ++ [a] }) hlive (by simp; omega)]
    simp

/-- **A batch that does not fit ends the feed,** with what fits in its buffer. -/
theorem foldl_push_of_overflows (hlive : f.isLive = true)
    (hfull : f.pending.length + pre.length = f.capacity) (a : α) (post : List α) :
    ((pre ++ a :: post).foldl push f).pending = f.pending ++ pre ∧
      ((pre ++ a :: post).foldl push f).isLive = false := by
  set filled : Feed α := { f with pending := f.pending ++ pre } with hfilled
  have hlast : filled.isFull = true := by simp [isFull, hfilled, hfull]
  rw [List.foldl_append, foldl_push_of_fits hlive (Nat.le_of_eq hfull), List.foldl_cons,
    push_of_full (f := filled) hlive hlast]
  exact foldl_push_of_ended (f := filled.detach) rfl post

/-- Either a batch fits, or one of its items finds the buffer full. -/
theorem fits_or_overflows (hroom : f.pending.length ≤ f.capacity) (l : List α) :
    f.pending.length + l.length ≤ f.capacity ∨
      ∃ pre a post, l = pre ++ a :: post ∧ f.pending.length + pre.length = f.capacity := by
  rcases Nat.lt_or_ge f.capacity (f.pending.length + l.length) with hlong | hfits
  · have hlt : f.capacity - f.pending.length < l.length := by omega
    refine .inr ⟨l.take (f.capacity - f.pending.length), l[f.capacity - f.pending.length], _,
      (List.take_append_drop _ l).symm.trans (by rw [List.drop_eq_getElem_cons hlt]), ?_⟩
    rw [List.length_take]
    omega
  · exact .inl hfits

theorem pending_of_taken {f' : Feed α} (h : f.offer a = (.taken, f')) :
    f'.pending = f.pending ++ [a] := by
  unfold offer at h
  split at h
  · cases h
  · split at h <;> cases h
    rfl

theorem isLive_of_taken {f' : Feed α} (h : f.offer a = (.taken, f')) : f.isLive = true := by
  unfold offer at h
  cases hlive : f.isLive with
  | true => rfl
  | false => simp [hlive] at h

/-! ### Receiving -/

theorem receive_of_pending (h : f.pending = a :: l) :
    f.receive = (.item a, { f with pending := l }) := by
  rw [receive, h]

theorem receive_of_empty (h : f.pending = []) :
    f.receive = (if f.isLive then .nothing else .ended, f) := by
  rw [receive, h]

/-- A feed that has ended still gives what is buffered, and then its end. -/
theorem receive_of_ended (h : f.isLive = false) :
    f.receive.1 = f.pending.head?.elim .ended .item := by
  cases hpending : f.pending with
  | nil =>
    rw [receive_of_empty hpending, h, if_neg Bool.false_ne_true]
    rfl
  | cons a rest =>
    rw [receive_of_pending hpending]
    rfl

theorem receive_eq_ended {f' : Feed α} (h : f.receive = (.ended, f')) :
    f.pending = [] ∧ f.isLive = false ∧ f' = f := by
  cases hpending : f.pending with
  | nil =>
    rw [receive_of_empty hpending] at h
    cases hlive : f.isLive with
    | true => simp [hlive] at h
    | false => exact ⟨rfl, rfl, (congrArg Prod.snd h).symm⟩
  | cons a rest =>
    rw [receive_of_pending hpending] at h
    cases h

end ControlPlane.Feed
