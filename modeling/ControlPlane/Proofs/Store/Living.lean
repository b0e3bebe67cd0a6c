import ControlPlane.Proofs.Program.Ensures
import ControlPlane.Proofs.Store.Lasting
import Mathlib.Tactic.Set

/-!
# Stores on which time passes

Where entries have a time to live, a store changes by itself. What can be compared before and after
some calls is what is still there at a moment behind all of them: an entry that was dropped on the
way was over by then, and would not have been there in any case.

## Main definitions

* `Contents.living?`: the entry of a key, at a moment
* `Store.Unchanged`, `Store.Adds`: what calls leave of the entries
* `Store.falters`: the steps of a store of which some calls may fail, up to a moment

## Main results

* `Store.Falters.unchanged_of_error`: a call that fails changes nothing
* `Store.Falters.unchanged_of_isRead`: nor does reading
* `Store.Falters.adds`: a creation that succeeds
-/

namespace ControlPlane

theorem Entry.expired_of_le {e : Entry} {now latest : Moment} (h : now ≤ latest)
    (he : e.expired now = true) : e.expired latest = true := by
  unfold Entry.expired at *
  cases hexpires : e.expires with
  | none => simp [hexpires] at he
  | some moment =>
    simp only [hexpires, decide_eq_true_eq] at *
    exact Nat.le_trans he h

namespace Contents

/-- The entry of a key, if its time is not over. -/
def living? (c : Contents) (now : Moment) (key : String) : Option Entry :=
  (c.kept? key).filter fun e => !e.expired now

variable {c : Contents} {now latest : Moment}

/-- **What was dropped on the way is over in the end.** -/
theorem living?_purge (h : now ≤ latest) (key : String) :
    (c.purge now).2.living? latest key = c.living? latest key := by
  rw [living?, living?, purge, kept?_remove, Option.filter_filter]
  congr 1
  funext e
  cases hnow : e.expired now with
  | false => rfl
  | true => rw [Entry.expired_of_le h hnow]; rfl

theorem living?_eq_none_of_purge {key : String} (h : now ≤ latest)
    (hkey : (c.purge now).2.kept? key = none) : c.living? latest key = none := by
  rw [← living?_purge h, living?, hkey]
  rfl

end Contents

namespace Store

/-- Everything that is there at a moment was there before, as it is, and nothing more was. -/
def Unchanged (latest : Moment) (s t : Store) : Prop :=
  ∀ key, t.contents.living? latest key = s.contents.living? latest key

/-- A key that was not there is there now, with a value that stays; everything else is as it was. -/
def Adds (latest : Moment) (key value : String) (s t : Store) : Prop :=
  s.contents.living? latest key = none ∧ ∃ index, ∀ k, t.contents.living? latest k =
    if k = key then some ⟨value, index, none⟩ else s.contents.living? latest k

/-- What a store may do with a call that is made at some moment up to `latest`: carry it out, or
fail if `fails` allows it. -/
inductive Falters (latest : Moment) (fails : StoreCall → Prop) (c : StoreCall) (s : Store) :
    Except Error c.Result → Store → Prop
  | performed (now : Moment) : now ≤ latest →
      Falters latest fails c s (s.perform now c).1 (s.perform now c).2
  | failed (e : Error) : fails c → Falters latest fails c s (.error e) s

/-- The steps of a store of which some calls may fail. -/
def falters (latest : Moment) (fails : StoreCall → Prop) : storeCalls.Steps Store :=
  Falters latest fails

variable {latest : Moment} {fails : StoreCall → Prop} {s t u : Store} {key value : String}

theorem Unchanged.refl (latest : Moment) (s : Store) : Unchanged latest s s := fun _ => rfl

theorem Unchanged.trans (h : Unchanged latest s t) (h' : Unchanged latest t u) :
    Unchanged latest s u :=
  fun key => (h' key).trans (h key)

theorem Unchanged.adds (h : Unchanged latest s t) (h' : Adds latest key value t u) :
    Adds latest key value s u := by
  obtain ⟨hnone, index, hadded⟩ := h'
  refine ⟨(h key).symm.trans hnone, index, fun k => ?_⟩
  rw [hadded k, h k]

/-- A call that fails drops what is over, and nothing else. -/
theorem contents_of_error {c : StoreCall} {now : Moment} {e : Error}
    (h : (s.perform now c).1 = .error e) :
    (s.perform now c).2.contents = (s.contents.purge now).2 := by
  have hupdate : ∀ {α : Type} {call : Contents → Contents.Effect α},
      (s.update now call).1 = .error e →
        (s.update now call).2.contents = (s.contents.purge now).2 := by
    intro α call herror
    obtain ⟨hresult, hcontents, -⟩ := s.update_eq_settle now call
    rw [hresult] at herror
    rw [hcontents]
    unfold Contents.settle at *
    cases hcall : call (s.contents.purge now).2 with
    | ok r =>
      rw [hcall] at herror
      cases herror
    | error e => rfl
  cases c with
  | watch key recursive => cases h
  | _ => exact hupdate h

/-- A call that reads changes no more than that expired entries go. -/
theorem contents_of_isRead {c : StoreCall} (now : Moment) (h : c.isRead = true) :
    (s.perform now c).2.contents = (s.contents.purge now).2 := by
  cases c with
  | get key =>
    refine (s.update_eq_settle now (·.get key)).2.1.trans ?_
    cases hentry : (s.contents.purge now).2.entries.get? key <;>
      simp only [Contents.settle, Contents.get, hentry]
  | list dir recursive =>
    refine (s.update_eq_settle now (·.list dir recursive)).2.1.trans ?_
    cases hwalk : (s.contents.purge now).2.walk dir recursive <;>
      simp only [Contents.settle, Contents.list, hwalk]
  | _ => cases h

theorem unchanged_of_purge {now : Moment} (hnow : now ≤ latest)
    (h : t.contents = (s.contents.purge now).2) : Unchanged latest s t := by
  intro key
  rw [h, Contents.living?_purge hnow]

/-- **A call that fails changes nothing,** whether it is carried out or not. -/
theorem Falters.unchanged_of_error {c : StoreCall} {e : Error}
    (h : Falters latest fails c s (.error e) t) : Unchanged latest s t := by
  generalize hr : (Except.error e : Except Error c.Result) = r at h
  cases h with
  | performed now hnow => exact unchanged_of_purge hnow (contents_of_error hr.symm)
  | failed => exact Unchanged.refl latest s

/-- **Reading changes nothing** that can still be seen later, whether or not the call fails. -/
theorem Falters.unchanged_of_isRead {c : StoreCall} {r : Except Error c.Result}
    (h : Falters latest fails c s r t) (hread : c.isRead = true) : Unchanged latest s t := by
  cases h with
  | performed now hnow => exact unchanged_of_purge hnow (contents_of_isRead now hread)
  | failed => exact Unchanged.refl latest s

/-- **A creation that succeeds** has found nothing under the key, and adds a value that stays. -/
theorem Falters.adds {r : Except Error (StoreCall.create key value none).Result} {node : Node}
    (h : Falters latest fails (.create key value none) s r t) (hr : r = .ok node) :
    Adds latest key value s t := by
  cases h with
  | failed => cases hr
  | performed now hnow =>
    obtain ⟨hresult, hcontents, -⟩ := s.update_eq_settle now (·.create now key value none)
    have hresult := hr.symm.trans hresult
    set p := (s.contents.purge now).2 with hp
    rw [Contents.settle_create] at hresult hcontents
    by_cases hthere : p.entries.contains key = true
    · rw [if_pos hthere] at hresult
      cases hresult
    · rw [if_neg hthere] at hcontents
      have hfree : p.kept? key = none := by
        rwa [KeyMap.contains, Bool.not_eq_true, Option.isSome_eq_false_iff,
          Option.isNone_iff_eq_none] at hthere
      refine ⟨Contents.living?_eq_none_of_purge hnow hfree, p.index + 1, fun k => ?_⟩
      show (s.update now (·.create now key value none)).2.contents.living? latest k = _
      rw [Contents.living?, hcontents, Contents.kept?_put, ← Contents.living?_purge hnow]
      by_cases hk : k = key
      · rw [if_pos hk, if_pos hk]
        rfl
      · rw [if_neg hk, if_neg hk]
        rfl

/-- A write can only fail where it is not carried out. -/
theorem Falters.fails_of_set {ttl : Option Span}
    {r : Except Error (StoreCall.set key value ttl).Result}
    {e : Error} (h : Falters latest fails (.set key value ttl) s r t) (hr : r = .error e) :
    fails (.set key value ttl) ∧ t = s := by
  cases h with
  | failed _ hfails => exact ⟨hfails, rfl⟩
  | performed now =>
    have hresult := (s.update_eq_settle now fun c => .ok (c.put now .set key value ttl)).1
    cases hr.symm.trans hresult

end Store

end ControlPlane
