import ControlPlane.Proofs.Store.Living

/-!
# Calls as time passes

`Store.falters` lets calls be made at any moments. That is enough to compare stores in the end, but
not to say what a call that reads has read: an entry may come to its end between two calls, and it
matters which of them comes first. Here every call is made no earlier than the one before, and the
moment of the last call is part of the state.

What is read is then said by the contents at the beginning: reading a key at some moment finds what
was under it and lives at that moment, however often the store was asked before. What is written
from then on is compared with the beginning at all later moments together, because an entry that is
over stays over.

## Main definitions

* `Store.passes`: the steps of a store, with the moment of the last call
* `Store.Passed`: a store that was only read
* `Store.Sets`: a key was written and everything else let be

## Main results

* `Store.ensures_get_passing`: reading a key
* `Store.Passes.adds`, `Store.Passes.sets`: writing one
* `Store.reaches_at`: asking at one moment is a run in time
-/

namespace ControlPlane

namespace Contents

/-- What is left when all is dropped that is over is what lives. -/
theorem kept?_purge (c : Contents) (now : Moment) (key : String) :
    (c.purge now).2.kept? key = c.living? now key :=
  kept?_remove ..

theorem living?_eq_none_of_le {c : Contents} {now later : Moment} {key : String} (h : now ≤ later)
    (hnone : c.living? now key = none) : c.living? later key = none :=
  living?_eq_none_of_purge h ((c.kept?_purge now key).trans hnone)

end Contents

namespace Store

open Contents

/-- A call at some moment, which is not before that of the last call. -/
inductive Passes (c : StoreCall) (x : Store × Moment) :
    Except Error c.Result → Store × Moment → Prop
  | performed (now : Moment) (h : x.2 ≤ now) :
      Passes c x (x.1.perform now c).1 ((x.1.perform now c).2, now)

/-- The steps of a store on which time passes. -/
def passes : storeCalls.Steps (Store × Moment) := Passes

/-- Time has passed, and everything that is there from now on is as it was in the beginning. -/
structure Passed (x y : Store × Moment) : Prop where
  le : x.2 ≤ y.2
  unchanged : ∀ later, y.2 ≤ later → Unchanged later x.1 y.1

/-- A key has a value that stays; everything else is as it was. -/
def Sets (latest : Moment) (key value : String) (s t : Store) : Prop :=
  ∃ index, ∀ k, t.contents.living? latest k =
    if k = key then some ⟨value, index, none⟩ else s.contents.living? latest k

variable {x y z : Store × Moment} {key value : String} {c : StoreCall}

theorem Passed.refl (x : Store × Moment) : Passed x x := ⟨Nat.le_refl _, fun _ _ => .refl _ _⟩

theorem Passed.trans (h : Passed x y) (h' : Passed y z) : Passed x z :=
  ⟨Nat.le_trans h.le h'.le, fun later hlater =>
    (h.unchanged later (Nat.le_trans h'.le hlater)).trans (h'.unchanged later hlater)⟩

theorem Passes.le {a : Except Error c.Result} (h : Passes c x a y) : x.2 ≤ y.2 := by
  cases h with
  | performed now hnow => exact hnow

/-- A call in time is one of those that are made up to some later moment. -/
theorem Passes.falters {a : Except Error c.Result} (h : Passes c x a y) {later : Moment}
    (hlater : y.2 ≤ later) : Falters later (fun _ => False) c x.1 a y.1 := by
  cases h with
  | performed now => exact .performed now hlater

theorem Passes.passed_of_isRead {a : Except Error c.Result} (h : Passes c x a y)
    (hread : c.isRead = true) : Passed x y :=
  ⟨h.le, fun _ hlater => (h.falters hlater).unchanged_of_isRead hread⟩

theorem Passes.passed_of_error {e : Error} (h : Passes c x (.error e) y) : Passed x y :=
  ⟨h.le, fun _ hlater => (h.falters hlater).unchanged_of_error⟩

/-- **Reading a key** finds what was under it in the beginning and is still there. -/
theorem Passes.get_eq {a : Except Error (StoreCall.get key).Result}
    (h : Passes (.get key) x a y) :
    a = (x.1.contents.living? y.2 key).elim (.error (.keyNotFound key))
      fun e => .ok (e.toNode key) := by
  cases h with
  | performed now =>
    rw [perform_get, contents_of_isRead now rfl, kept?_purge]

/-- A creation that succeeds adds a key, at all later moments. -/
theorem Passes.adds {node : Node} (h : Passes (.create key value none) x (.ok node) y)
    {later : Moment} (hlater : y.2 ≤ later) : Adds later key value x.1 y.1 :=
  (h.falters hlater).adds rfl

/-- A write sets a key, at all later moments, and does not fail. -/
theorem Passes.sets {a : Except Error (StoreCall.set key value none).Result}
    (h : Passes (.set key value none) x a y) :
    (∃ node, a = .ok node) ∧ ∀ later, y.2 ≤ later → Sets later key value x.1 y.1 := by
  cases h with
  | performed now hnow =>
    obtain ⟨hresult, hcontents, -⟩ :=
      x.1.update_eq_settle now fun c => .ok (c.put now .set key value none)
    refine ⟨⟨_, hresult⟩, fun later hlater => ⟨(x.1.contents.purge now).2.index + 1, fun k => ?_⟩⟩
    show (x.1.update now fun c => .ok (c.put now .set key value none)).2.contents.living?
      later k = _
    rw [living?, hcontents, settle, kept?_put, ← living?_purge hlater]
    by_cases hk : k = key
    · rw [if_pos hk, if_pos hk]
      rfl
    · rw [if_neg hk, if_neg hk]
      rfl

/-! ### Programs -/

theorem ensures_get_passing (hx : Passed x y) :
    (StoreWork.call (.get key)).orNone.run.Ensures passes (fun _ => True)
      (fun r z => Passed x z ∧ y.2 ≤ z.2 ∧
        r = .ok ((x.1.contents.living? z.2 key).map (·.toNode key))) y := by
  refine Work.ensures_orNone.mpr ((Program.ensures_ask (I := storeCalls)
    (c := StoreCall.get key)).mpr ⟨trivial, fun a z hstep => ?_⟩)
  have hz := hx.trans (hstep.passed_of_isRead rfl)
  refine ⟨trivial, hz, hstep.le, ?_⟩
  have ha : a = _ := hstep.get_eq
  rw [ha, hx.unchanged z.2 hstep.le key]
  cases x.1.contents.living? z.2 key with
  | none => rfl
  | some e => rfl

/-- Asking at one moment is a run in time. -/
theorem reaches_at {α : Type} (now : Moment) (p : Program storeCalls α) (s : Store) :
    Program.Reaches passes p (s, now) (.done (p.run (fun c s => s.perform now c) s).1)
      ((p.run (fun c s => s.perform now c) s).2, now) := by
  induction p generalizing s with
  | done a => exact .start
  | call c next ih => exact .of_call (.performed now (Nat.le_refl now)) (ih _ _)

end Store

end ControlPlane
