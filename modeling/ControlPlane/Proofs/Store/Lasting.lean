import ControlPlane.Proofs.Program.Ensures
import ControlPlane.Proofs.Store.Entries

/-!
# Stores whose entries last

As long as no entry has a time to live, a store is a map: reading changes nothing, writing changes
one key, and the moment at which a call is made does not matter. The rules below say so for the
calls that the registry makes, on a store that may also fail. A call that fails has no effect, and a
read that fails does not claim that there was nothing to read.

## Main definitions

* `Contents.Lasting`
* `Contents.Wrote`, `Contents.Dropped`: what a change of one key leaves
* `Contents.Cleared`: what a removal leaves, also of what lies under the key
* `Store.serves`: the answers of a store that may fail
* `StoreWork.Saw`: the ending of work that only reads

## Main results

* `StoreWork.ensures_get`, `ensures_list`, `ensures_set`, `ensures_create`, `ensures_delete_under`,
  `ensures_delete_key`
-/

namespace ControlPlane

namespace Contents

/-- No entry ever expires. So it does not matter at what moments calls are made. -/
def Lasting (c : Contents) : Prop := ∀ key e, c.kept? key = some e → e.expires = none

/-- `d` is what writing a key leaves of `c`. -/
structure Wrote (c d : Contents) (key value : String) : Prop where
  kept? : ∀ k, d.kept? k = if k = key then some ⟨value, c.index + 1, none⟩ else c.kept? k
  index : d.index = c.index + 1

/-- `d` is what removing a key leaves of `c`. -/
structure Dropped (c d : Contents) (key : String) : Prop where
  kept? : ∀ k, d.kept? k = if k = key then none else c.kept? k
  index : c.index ≤ d.index

/-- `d` is what removing a key leaves of `c`; everything under the key goes as well if
`recursive`. -/
structure Cleared (c d : Contents) (key : String) (recursive : Bool) : Prop where
  kept? : ∀ k, d.kept? k =
    if k = key ∨ (recursive && Path.isUnder key k true) = true then none else c.kept? k
  index : c.index ≤ d.index

section

variable {c d : Contents} {key value : String} {recursive : Bool}

theorem Wrote.frame (h : c.Wrote d key value) : ∀ k, k ≠ key → d.kept? k = c.kept? k :=
  fun k hk => by rw [h.kept?, if_neg hk]

theorem Dropped.frame (h : c.Dropped d key) : ∀ k, k ≠ key → d.kept? k = c.kept? k :=
  fun k hk => by rw [h.kept?, if_neg hk]

theorem Wrote.lasting (h : c.Wrote d key value) (hc : c.Lasting) : d.Lasting := by
  intro k e he
  rw [h.kept?] at he
  split at he
  · rw [← Option.some.inj he]
  · exact hc k e he

/-- **Nothing of a lasting store is purged,** at whatever moment a call comes. -/
theorem Lasting.purge (h : c.Lasting) (now : Moment) : c.purge now = ([], c) := by
  have hkept : ∀ entry ∈ c.entries.entries, entry.2.expired now = false := by
    intro entry hentry
    have hlast := h entry.1 entry.2 (KeyMap.get?_eq_some_iff.mpr hentry)
    rw [Entry.expired, hlast]
  have hnone : (c.entries.filter fun _ entry => entry.expired now).keys = [] := by
    rw [KeyMap.keys, KeyMap.filter, List.map_eq_nil_iff, List.filter_eq_nil_iff]
    exact fun entry hentry => by simp [hkept entry hentry]
  have hall : (c.entries.filter fun _ entry => !entry.expired now) = c.entries := by
    apply KeyMap.ext
    rw [KeyMap.filter, List.filter_eq_self]
    exact fun entry hentry => by simp [hkept entry hentry]
  rw [Contents.purge, Contents.remove, hnone, hall]
  rfl

theorem wrote_put (c : Contents) (now : Moment) (action : Action) (key value : String) :
    c.Wrote (c.put now action key value none).2.2 key value where
  kept? _ := KeyMap.get?_insert ..
  index := rfl

/-- Where nothing lies under a key, only the key goes. -/
theorem Cleared.dropped (h : c.Cleared d key recursive)
    (hunder : recursive = true →
      ∀ k, (c.kept? k).isSome = true → Path.isUnder key k true = false) : c.Dropped d key := by
  refine ⟨fun k => ?_, h.index⟩
  rw [h.kept?]
  by_cases heq : k = key
  · rw [if_pos (.inl heq), if_pos heq]
  · rw [if_neg heq]
    split
    · rename_i hgone
      obtain ⟨hrecursive, hk⟩ := Bool.and_eq_true_iff.mp (hgone.resolve_left heq)
      cases hentry : c.kept? k with
      | none => rfl
      | some e =>
        rw [hunder hrecursive k (by rw [hentry]; rfl)] at hk
        cases hk
    · rfl

/-- **A key that is there can be removed,** with what is under it if the deletion is recursive. -/
theorem delete_of_isSome (recursive : Bool) (hkey : (c.kept? key).isSome = true) :
    ∃ changes d, c.delete key recursive = .ok ((), changes, d) ∧ c.Cleared d key recursive := by
  obtain ⟨e, he⟩ := Option.isSome_iff_exists.mp hkey
  have hmem : key ∈ (c.entries.filter (doomed key recursive)).keys :=
    mem_keys_filter_iff.mpr ⟨e, he, by simp [doomed]⟩
  have hcleared : c.Cleared (c.remove .delete (doomed key recursive)).2 key recursive := by
    refine ⟨fun k => ?_, Nat.le_add_right ..⟩
    rw [kept?_remove]
    by_cases hgone : k = key ∨ (recursive && Path.isUnder key k true) = true
    · have hdoomed : ∀ e, doomed key recursive k e = true := by simpa [doomed] using hgone
      rw [if_pos hgone]
      simp [hdoomed]
    · have hdoomed : ∀ e, doomed key recursive k e = false := by simpa [doomed] using hgone
      rw [if_neg hgone]
      cases c.kept? k <;> simp [hdoomed]
  exact ⟨_, _, by rw [delete_eq, if_neg (List.ne_nil_of_mem hmem)], hcleared⟩

theorem delete_of_eq_none (hkey : c.kept? key = none) :
    c.delete key false = .error (.keyNotFound key) := by
  rw [delete_eq, if_pos]
  refine List.eq_nil_iff_forall_not_mem.mpr fun k hk => ?_
  obtain ⟨e, he, hdoomed⟩ := mem_keys_filter_iff.mp hk
  obtain rfl : k = key := by simpa [doomed] using hdoomed
  rw [hkey] at he
  cases he

end

end Contents

/-! ### A store that may fail -/

/-- Whether a call leaves the entries alone. A subscription does too, but changes who is told. -/
def StoreCall.isRead : StoreCall → Bool
  | get _ | list .. => true
  | _ => false

namespace Store

/-- What a store may do with a call: carry it out, or fail if it is `failing`. -/
inductive Serves (failing : Prop) (c : StoreCall) (s : Store) : Except Error c.Result → Store → Prop
  | performed (now : Moment) : Serves failing c s (s.perform now c).1 (s.perform now c).2
  | failed (hfailing : failing) (e : Error) (he : c.isRead = true → e.isNotFound = false) :
      Serves failing c s (.error e) s

/-- The answers of a store that may fail, as the steps of a program that calls it. -/
def serves (failing : Prop) : storeCalls.Steps Store := Serves failing

/-- A store on which every write of a key that may be there already fails. -/
def failingSet (c : StoreCall) (s : Store) : Except Error c.Result × Store :=
  match c with
  | .set .. => (.error (.store "unavailable"), s)
  | c => s.perform 0 c

@[simp] theorem deliver_nil (s : Store) : s.deliver [] = s := by
  have hdeliver : Subscription.deliver [] = id := rfl
  rw [deliver, hdeliver, List.map_id]

/-- A call on a store whose entries last is its effect on the entries. -/
theorem update_of_lasting {α : Type} {s : Store} (h : s.contents.Lasting) (now : Moment)
    (call : Contents → Contents.Effect α) :
    s.update now call =
      match call s.contents with
      | .ok (result, changes, contents) =>
        (.ok result, { s with contents := contents }.deliver changes)
      | .error e => (.error e, s) := by
  rw [update, h.purge]
  dsimp only
  split <;> simp [*]

/-- Reading leaves a store as it is, where nothing expires. -/
theorem Serves.eq_of_isRead {failing : Prop} {c : StoreCall} {s t : Store}
    {a : Except Error c.Result}
    (hs : Serves failing c s a t) (h : s.contents.Lasting) (hc : c.isRead = true) : t = s := by
  cases hs with
  | failed => rfl
  | performed now =>
    cases c with
    | get key =>
      change (s.update now fun contents => contents.get key).2 = s
      rw [update_of_lasting h, Contents.get]
      split
      · rename_i heffect
        split at heffect <;> cases heffect
        exact deliver_nil s
      · rfl
    | list dir recursive =>
      change (s.update now fun contents => contents.list dir recursive).2 = s
      rw [update_of_lasting h, Contents.list]
      split
      · rename_i heffect
        split at heffect <;> cases heffect
        exact deliver_nil s
      · rfl
    | _ => cases hc

end Store

namespace StoreWork

open Store

variable {α β : Type} {failing : Prop} {inv : Store → Prop} {s : Store} {key value dir : String}

/-- The ending of work that only reads: the store is as it was, and the result is `a` unless the
store failed. -/
def Saw (failing : Prop) (s : Store) (a : α) (r : Except Error α) (t : Store) : Prop :=
  t = s ∧ (r = .ok a ∨ failing ∧ ∃ e, r = .error e)

theorem ensures_bind_of_read {x : Except Error α} {w : StoreWork α} {f : α → StoreWork β}
    {post : Except Error β → Store → Prop}
    (hw : w.run.Ensures (serves failing) inv
      (fun r t => t = s ∧ (r = x ∨ failing ∧ ∃ e, r = .error e)) s)
    (hok : ∀ a, x = .ok a → (f a).run.Ensures (serves failing) inv post s)
    (herror : ∀ e, x = .error e → post (.error e) s)
    (hfail : failing → ∀ e, post (.error e) s) :
    (w >>= f).run.Ensures (serves failing) inv post s := by
  refine Work.Ensures.bind hw ?_ ?_
  · rintro a t - ⟨rfl, ha | ⟨-, e, he⟩⟩
    · exact hok a ha.symm
    · cases he
  · rintro e t - ⟨rfl, he | ⟨hfailing, -⟩⟩
    · exact herror e he.symm
    · exact hfail hfailing e

theorem ensures_bind_of_saw {a : α} {w : StoreWork α} {f : α → StoreWork β}
    {post : Except Error β → Store → Prop}
    (hw : w.run.Ensures (serves failing) inv (Saw failing s a) s)
    (hf : (f a).run.Ensures (serves failing) inv post s)
    (hfail : failing → ∀ e, post (.error e) s) :
    (w >>= f).run.Ensures (serves failing) inv post s := by
  refine ensures_bind_of_read hw ?_ nofun hfail
  rintro b hb
  cases hb
  exact hf

/-- One call on a lasting store: either it fails, or it has its effect on the entries. -/
theorem ensures_call (c : StoreCall) (effect : Moment → Contents → Contents.Effect c.Result)
    {post : Except Error c.Result → Store → Prop}
    (hperform : ∀ now, s.perform now c = s.update now (effect now)) (h : s.contents.Lasting)
    (hinv : inv s)
    (hfail : failing → ∀ e, (c.isRead = true → e.isNotFound = false) → post (.error e) s)
    (herror : ∀ now e, effect now s.contents = .error e → post (.error e) s)
    (hok : ∀ now a changes d, effect now s.contents = .ok (a, changes, d) →
      ∀ t, t = { s with contents := d }.deliver changes → inv t ∧ post (.ok a) t) :
    (call c).run.Ensures (serves failing) inv post s := by
  refine Program.ensures_ask.mpr ⟨hinv, ?_⟩
  rintro _ _ (⟨now⟩ | ⟨hfailing, e, he⟩)
  · rw [hperform, update_of_lasting h]
    cases heffect : effect now s.contents with
    | ok r => exact hok now r.1 r.2.1 r.2.2 heffect _ rfl
    | error e => exact ⟨hinv, herror now e heffect⟩
  · exact ⟨hinv, hfail hfailing e he⟩

theorem ensures_get (h : s.contents.Lasting) (hinv : inv s) :
    (call (.get key)).orNone.run.Ensures (serves failing) inv
      (Saw failing s ((s.contents.kept? key).map (·.toNode key))) s := by
  refine Work.ensures_orNone.mpr
    (ensures_call (.get key) (fun _ c => c.get key) (fun _ => rfl) h hinv ?_ ?_ ?_)
  · intro hfailing e he
    exact ⟨rfl, .inr ⟨hfailing, e, by simp [Work.noneIfAbsent, he rfl]⟩⟩
  · intro _ e heffect
    rw [Contents.get] at heffect
    split at heffect
    · cases heffect
    · rename_i hentry
      cases heffect
      exact ⟨rfl, .inl (by rw [Contents.kept?, hentry]; rfl)⟩
  · rintro _ a changes d heffect t rfl
    rw [Contents.get] at heffect
    split at heffect
    · rename_i e hentry
      cases heffect
      rw [deliver_nil]
      exact ⟨hinv, rfl, .inl (by rw [Contents.kept?, hentry]; rfl)⟩
    · cases heffect

/-- What a listing gives: a directory without keys is absent. -/
def listing? : List Node → Option (List Node)
  | [] => none
  | node :: nodes => some (node :: nodes)

theorem ensures_list {recursive : Bool} (h : s.contents.Lasting) (hinv : inv s) :
    (call (.list dir recursive)).orNone.run.Ensures (serves failing) inv
      (Saw failing s
        (listing? (s.contents.nodes fun key => Path.isUnder dir key recursive))) s := by
  refine Work.ensures_orNone.mpr
    (ensures_call (.list dir recursive) (fun _ c => c.list dir recursive) (fun _ => rfl) h hinv
      ?_ ?_ ?_)
  · intro hfailing e he
    exact ⟨rfl, .inr ⟨hfailing, e, by simp [Work.noneIfAbsent, he rfl]⟩⟩
  · intro _ e heffect
    rw [Contents.list, Contents.walk_eq_nodes] at heffect
    split at heffect
    · rename_i hnodes
      cases heffect
      exact ⟨rfl, .inl (by rw [hnodes]; rfl)⟩
    · cases heffect
  · rintro _ a changes d heffect t rfl
    rw [Contents.list, Contents.walk_eq_nodes] at heffect
    split at heffect
    · cases heffect
    · rename_i node nodes hnodes
      cases heffect
      rw [deliver_nil]
      exact ⟨hinv, rfl, .inl (by rw [hnodes]; rfl)⟩

theorem ensures_set {post : Except Error Node → Store → Prop} (h : s.contents.Lasting)
    (hinv : inv s) (hfail : failing → ∀ e, post (.error e) s)
    (hwrote : ∀ t n, s.contents.Wrote t.contents key value → inv t ∧ post (.ok n) t) :
    (call (.set key value none)).run.Ensures (serves failing) inv post s := by
  refine ensures_call (.set key value none) (fun now c => .ok (c.put now .set key value none))
    (fun _ => rfl) h hinv (fun hfailing e _ => hfail hfailing e)
    (fun _ _ heffect => by cases heffect) ?_
  rintro now a changes d heffect t rfl
  cases heffect
  exact hwrote _ _ (s.contents.wrote_put now .set key value)

/-- Writing a key that must not be there yet. -/
theorem ensures_create {post : Except Error Node → Store → Prop} (h : s.contents.Lasting)
    (hinv : inv s) (hfail : failing → ∀ e, post (.error e) s)
    (hexists : ∀ e, (s.contents.kept? key).isSome = true → post (.error e) s)
    (hwrote : ∀ t n, s.contents.kept? key = none → s.contents.Wrote t.contents key value →
      inv t ∧ post (.ok n) t) :
    (call (.create key value none)).run.Ensures (serves failing) inv post s := by
  refine ensures_call (.create key value none) (fun now c => c.create now key value none)
    (fun _ => rfl) h hinv (fun hfailing e _ => hfail hfailing e) ?_ ?_
  · intro now e heffect
    rw [Contents.create] at heffect
    split at heffect
    · rename_i hcontains
      exact hexists e hcontains
    · cases heffect
  · rintro now a changes d heffect t rfl
    rw [Contents.create] at heffect
    split at heffect
    · cases heffect
    · rename_i hcontains
      cases heffect
      refine hwrote _ _ ?_ (s.contents.wrote_put now .create key value)
      rwa [KeyMap.contains, Bool.not_eq_true, Option.isSome_eq_false_iff,
        Option.isNone_iff_eq_none] at hcontains

/-- Removing a key that is there, and everything under it. -/
theorem ensures_delete_under {post : Except Error Unit → Store → Prop} (h : s.contents.Lasting)
    (hinv : inv s) (hkey : (s.contents.kept? key).isSome = true)
    (hfail : failing → ∀ e, post (.error e) s)
    (hcleared : ∀ t, s.contents.Cleared t.contents key true → inv t ∧ post (.ok ()) t) :
    (call (.delete key true)).run.Ensures (serves failing) inv post s := by
  obtain ⟨changes, d, hdelete, hd⟩ := Contents.delete_of_isSome true hkey
  refine ensures_call (.delete key true) (fun _ c => c.delete key true) (fun _ => rfl) h hinv
    (fun hfailing e _ => hfail hfailing e) ?_ ?_
  · intro now e heffect
    rw [hdelete] at heffect
    cases heffect
  · rintro now a changes d' heffect t rfl
    rw [hdelete] at heffect
    cases heffect
    exact hcleared _ hd

theorem ensures_delete_key {post : Except Error Unit → Store → Prop} (h : s.contents.Lasting)
    (hinv : inv s) (herror : ∀ e, post (.error e) s)
    (hdropped : ∀ t, s.contents.Dropped t.contents key → inv t ∧ post (.ok ()) t) :
    (call (.delete key false)).run.Ensures (serves failing) inv post s := by
  refine ensures_call (.delete key false) (fun _ c => c.delete key false) (fun _ => rfl) h hinv
    (fun _ e _ => herror e) (fun _ e _ => herror e) ?_
  rintro now a changes d' heffect t rfl
  cases hkey : s.contents.kept? key with
  | none =>
    rw [Contents.delete_of_eq_none hkey] at heffect
    cases heffect
  | some e =>
    obtain ⟨changes', d, hdelete, hd⟩ := Contents.delete_of_isSome false (by rw [hkey]; rfl)
    rw [hdelete] at heffect
    cases heffect
    exact hdropped _ (hd.dropped nofun)

end StoreWork

end ControlPlane
