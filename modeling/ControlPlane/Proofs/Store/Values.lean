import ControlPlane.Proofs.Program.Interleaving
import ControlPlane.Proofs.Store.Living
import Mathlib.Logic.Function.Basic

/-!
# A store as a map from keys to values

What the users of a store care about is which keys there are and which values they have. The rest of
it, the indices of changes, subscriptions and entries that are about to expire, is not a function of
that. `Store.values` is the map that a store is at a moment behind all calls, and `Values.perform`
says what a call on a key answers and does to such a map; it knows no indices and no time.

For calls on keys whose entries do not expire the two agree, at whatever moments they are made: what
a store answers is, up to indices, what the map answers, and what is left of the store is what is
left of the map. Calls that list, add children or subscribe are not calls on keys, and a map refuses
them.

## Main definitions

* `Store.values`, `Values.perform`
* `StoreCall.OnKeys`, `StoreCall.Touches`: calls on keys, and the keys that they touch
* `StoreCall.bare`: an answer without indices
* `Contents.LastingOn`: entries of some keys do not expire
* `Store.Writes`: the keys that a call may write or remove

## Main results

* `Values.local_perform`: a call on keys keeps to the keys that it touches
* `Store.Falters.values`: a call on keys, on a store and on its map
* `Store.lastingOn_perform`: entries go on not to expire
* `Store.living?_perform`: any call, at any moment, leaves the other keys as they are
-/

namespace ControlPlane

/-- A map from keys to values. Indices are left out, since they depend on how many changes others
have made. -/
abbrev Values := String → Option String

/-- What is under each key at a moment. What has expired by then is not, although it may still be
kept. -/
def Store.values (latest : Moment) (s : Store) : Values :=
  fun key => (s.contents.living? latest key).map Entry.value

/-- No entry of some keys ever expires. -/
def Contents.LastingOn (keys : String → Prop) (c : Contents) : Prop :=
  ∀ key e, keys key → c.kept? key = some e → e.expires = none

namespace StoreCall

/-- Calls on a key that is named, with values that stay. -/
def OnKeys : StoreCall → Prop
  | get _ | delete .. => True
  | set _ _ ttl | create _ _ ttl => ttl = none
  | list .. | addChild .. | watch .. => False

/-- The keys that a call on keys reads or writes. -/
def Touches : StoreCall → String → Prop
  | get key, k | set key .., k | create key .., k => k = key
  | delete key recursive, k => k = key ∨ (recursive && Path.isUnder key k true) = true
  | list .., _ | addChild .., _ | watch .., _ => False

/-- An answer without the indices of changes. -/
def bare : (c : StoreCall) → Except Error c.Result → Except Error c.Result
  | get _, r => r.map fun node : Node => { node with index := 0 }
  | list .., r => r.map fun nodes : List Node => nodes.map fun node => { node with index := 0 }
  | set .., r => r.map fun node : Node => { node with index := 0 }
  | create .., r => r.map fun node : Node => { node with index := 0 }
  | delete .., r => r
  | addChild .., r => r.map fun node : Node => { node with index := 0 }
  | watch .., r => r

end StoreCall

namespace Values

/-- Whether there is anything to remove when a key is deleted. -/
def Holds (key : String) (recursive : Bool) (x : Values) : Prop :=
  ∃ k, (StoreCall.delete key recursive).Touches k ∧ (x k).isSome = true

/-- What is left when a key is deleted. -/
def without (key : String) (recursive : Bool) (x : Values) : Values :=
  fun k => if k = key ∨ (recursive && Path.isUnder key k true) = true then none else x k

open Classical in
/-- Answers a call on keys. -/
noncomputable def perform : (c : StoreCall) → Values → Except Error c.Result × Values
  | .get key, x => ((x key).elim (.error (.keyNotFound key)) fun value => .ok ⟨key, value, 0⟩, x)
  | .set key value _, x => (.ok ⟨key, value, 0⟩, Function.update x key (some value))
  | .create key value _, x =>
    if (x key).isSome then (.error (.keyExists key), x)
    else (.ok ⟨key, value, 0⟩, Function.update x key (some value))
  | .delete key recursive, x =>
    if x.Holds key recursive then (.ok (), x.without key recursive)
    else (.error (.keyNotFound key), x)
  | .list .., x => (.error (.notOffered "list"), x)
  | .addChild .., x => (.error (.notOffered "child"), x)
  | .watch .., x => (.error (.notOffered "watch"), x)

section

variable {keys : String → Prop} {x y : Values} {key : String} {recursive : Bool}

theorem perform_delete_of_holds (h : x.Holds key recursive) :
    perform (.delete key recursive) x = (.ok (), x.without key recursive) :=
  if_pos h

theorem perform_delete_of_not_holds (h : ¬ x.Holds key recursive) :
    perform (.delete key recursive) x = (.error (.keyNotFound key), x) :=
  if_neg h

theorem agree_update (h : Program.Agree keys x y) (key : String) (value : Option String) :
    Program.Agree keys (Function.update x key value) (Function.update y key value) := by
  intro k hk
  by_cases hkey : k = key
  · rw [hkey, Function.update_self, Function.update_self]
  · rw [Function.update_of_ne hkey, Function.update_of_ne hkey, h k hk]

theorem holds_congr (hc : ∀ k, (StoreCall.delete key recursive).Touches k → keys k)
    (h : Program.Agree keys x y) : x.Holds key recursive ↔ y.Holds key recursive :=
  exists_congr fun k => and_congr_right fun hk => by rw [h k (hc k hk)]

/-- **A call on keys keeps to the keys that it touches.** -/
theorem local_perform {c : StoreCall} (hc : ∀ k, c.Touches k → keys k) :
    Program.Local (I := storeCalls) perform keys c := by
  cases c with
  | get key =>
    refine ⟨fun {x y} h => ?_, fun h => h, fun _ _ _ => rfl⟩
    rw [perform, perform, h key (hc key rfl)]
  | set key value ttl =>
    refine ⟨fun _ => rfl, fun h => agree_update h key _, fun x k hk => ?_⟩
    exact Function.update_of_ne (fun hkey : k = key => hk (hc k hkey)) ..
  | create key value ttl =>
    refine ⟨fun {x y} h => ?_, fun {x y} h => ?_, fun x k hk => ?_⟩
    · rw [perform, perform, h key (hc key rfl)]
      split <;> rfl
    · rw [perform, perform, h key (hc key rfl)]
      split
      · exact h
      · exact agree_update h key _
    · rw [perform]
      split
      · rfl
      · exact Function.update_of_ne (fun hkey : k = key => hk (hc k hkey)) ..
  | delete key recursive =>
    refine ⟨fun {x y} h => ?_, fun {x y} h => ?_, fun x k hk => ?_⟩
    · by_cases hy : Holds key recursive y
      · rw [perform_delete_of_holds hy, perform_delete_of_holds ((holds_congr hc h).mpr hy)]
      · rw [perform_delete_of_not_holds hy,
          perform_delete_of_not_holds (mt (holds_congr hc h).mp hy)]
    · by_cases hy : Holds key recursive y
      · rw [perform_delete_of_holds hy, perform_delete_of_holds ((holds_congr hc h).mpr hy)]
        intro k hk
        simp only [without, h k hk]
      · rw [perform_delete_of_not_holds hy,
          perform_delete_of_not_holds (mt (holds_congr hc h).mp hy)]
        exact h
    · by_cases hx : Holds key recursive x
      · rw [perform_delete_of_holds hx]
        exact if_neg fun hgone => hk (hc k hgone)
      · rw [perform_delete_of_not_holds hx]
  | list dir recursive => exact ⟨fun _ => rfl, fun h => h, fun _ _ _ => rfl⟩
  | addChild dir value ttl => exact ⟨fun _ => rfl, fun h => h, fun _ _ _ => rfl⟩
  | watch key recursive => exact ⟨fun _ => rfl, fun h => h, fun _ _ _ => rfl⟩

end

end Values

/-! ### A store and its map -/

namespace Contents

variable {keys : String → Prop} {c d : Contents} {key : String} {now latest : Moment}

/-- An entry that does not expire is there at any moment. -/
theorem living?_of_lasting (h : ∀ e, c.kept? key = some e → e.expires = none) :
    c.living? latest key = c.kept? key := by
  rw [living?]
  cases hentry : c.kept? key with
  | none => rfl
  | some e =>
    refine Option.filter_some_pos ?_
    rw [Entry.expired, h e hentry]
    rfl

/-- So nothing of it is dropped on the way. -/
theorem kept?_purge_of_lasting (now latest : Moment)
    (h : ∀ e, c.kept? key = some e → e.expires = none) :
    (c.purge now).2.kept? key = c.living? latest key := by
  rw [living?_of_lasting h, purge, kept?_remove]
  exact living?_of_lasting h

theorem settle_delete (c : Contents) (key : String) (recursive : Bool) :
    settle (·.delete key recursive) c =
      if (c.entries.filter (doomed key recursive)).keys = [] then (.error (.keyNotFound key), c)
      else (.ok (), (c.remove .delete (doomed key recursive)).2) := by
  by_cases hnone : (c.entries.filter (doomed key recursive)).keys = []
  · simp only [settle, delete_eq, if_pos hnone]
  · simp only [settle, delete_eq, if_neg hnone]

end Contents

namespace Store

open Contents

variable {latest now : Moment} {s : Store} {key value : String} {recursive : Bool}

/-- What is dropped on the way is not in the map. -/
theorem values_of_purge {t : Store} (hnow : now ≤ latest)
    (h : t.contents = (s.contents.purge now).2) : t.values latest = s.values latest :=
  funext fun key => congrArg (Option.map Entry.value) (unchanged_of_purge hnow h key)

/-- A written value is in the map, and stays there. -/
theorem values_of_put {t : Store} (action : Action) (hnow : now ≤ latest)
    (h : t.contents = ((s.contents.purge now).2.put now action key value none).2.2) :
    t.values latest = Function.update (s.values latest) key (some value) := by
  funext k
  rw [Store.values, h, living?, kept?_put]
  by_cases hkey : k = key
  · rw [if_pos hkey, hkey, Function.update_self]
    rfl
  · rw [if_neg hkey, Function.update_of_ne hkey]
    exact congrArg (Option.map Entry.value) (living?_purge hnow k)

theorem values_of_remove {t : Store} (hnow : now ≤ latest)
    (h : t.contents = ((s.contents.purge now).2.remove .delete (doomed key recursive)).2) :
    t.values latest = (s.values latest).without key recursive := by
  funext k
  rw [Store.values, h, living?, kept?_remove, Values.without]
  by_cases hgone : k = key ∨ (recursive && Path.isUnder key k true) = true
  · have hdoomed : ∀ e, doomed key recursive k e = true := by simpa [doomed] using hgone
    rw [if_pos hgone]
    simp [hdoomed]
  · have hdoomed : ∀ e, doomed key recursive k e = false := by simpa [doomed] using hgone
    rw [if_neg hgone, Store.values, ← living?_purge hnow, living?]
    simp [hdoomed]

variable (hnow : now ≤ latest)

include hnow

theorem values_get (h : ∀ e, s.contents.kept? key = some e → e.expires = none) :
    Values.perform (.get key) (s.values latest) =
      ((StoreCall.get key).bare (s.perform now (.get key)).1,
        (s.perform now (.get key)).2.values latest) := by
  have hread := contents_of_isRead (s := s) (c := .get key) now rfl
  rw [perform_get, values_of_purge hnow hread, hread, kept?_purge_of_lasting now latest h,
    Values.perform, Store.values]
  cases s.contents.living? latest key <;> rfl

theorem values_set :
    Values.perform (.set key value none) (s.values latest) =
      ((StoreCall.set key value none).bare (s.perform now (.set key value none)).1,
        (s.perform now (.set key value none)).2.values latest) := by
  have hsettle := s.update_eq_settle now fun c => .ok (c.put now .set key value none)
  have hanswer : (s.perform now (.set key value none)).1 = _ := hsettle.1
  have hleft : (s.perform now (.set key value none)).2.values latest = _ :=
    values_of_put .set hnow hsettle.2.1
  rw [hanswer, hleft]
  rfl

theorem values_create (h : ∀ e, s.contents.kept? key = some e → e.expires = none) :
    Values.perform (.create key value none) (s.values latest) =
      ((StoreCall.create key value none).bare (s.perform now (.create key value none)).1,
        (s.perform now (.create key value none)).2.values latest) := by
  have hsettle := s.update_eq_settle now (·.create now key value none)
  have hanswer : (s.perform now (.create key value none)).1 = _ := hsettle.1
  have hcontents : (s.perform now (.create key value none)).2.contents = _ := hsettle.2.1
  have hthere : (s.contents.purge now).2.entries.contains key = (s.values latest key).isSome := by
    rw [Store.values, Option.isSome_map, ← kept?_purge_of_lasting now latest h]
    rfl
  rw [settle_create, hthere] at hanswer hcontents
  rw [Values.perform]
  by_cases hsome : (s.values latest key).isSome = true
  · rw [if_pos hsome] at hanswer hcontents ⊢
    rw [hanswer, values_of_purge hnow hcontents]
    rfl
  · rw [if_neg hsome] at hanswer hcontents ⊢
    rw [hanswer, values_of_put .create hnow hcontents]
    rfl

theorem values_delete (h : s.contents.LastingOn (StoreCall.delete key recursive).Touches) :
    Values.perform (.delete key recursive) (s.values latest) =
      ((StoreCall.delete key recursive).bare (s.perform now (.delete key recursive)).1,
        (s.perform now (.delete key recursive)).2.values latest) := by
  have hsettle := s.update_eq_settle now (·.delete key recursive)
  have hanswer : (s.perform now (.delete key recursive)).1 = _ := hsettle.1
  have hcontents : (s.perform now (.delete key recursive)).2.contents = _ := hsettle.2.1
  -- nothing is removed at this moment where nothing is in the map
  have hholds : ((s.contents.purge now).2.entries.filter (doomed key recursive)).keys = [] ↔
      ¬ (s.values latest).Holds key recursive := by
    rw [List.eq_nil_iff_forall_not_mem, Values.Holds, not_exists]
    refine forall_congr' fun k => not_congr ?_
    rw [mem_keys_filter_iff]
    constructor
    · rintro ⟨e, he, hdoomed⟩
      have hk : (StoreCall.delete key recursive).Touches k := by
        simpa [doomed, StoreCall.Touches] using hdoomed
      rw [kept?_purge_of_lasting now latest fun e => h k e hk] at he
      exact ⟨hk, by rw [Store.values, he]; rfl⟩
    · rintro ⟨hk, hsome⟩
      rw [Store.values, Option.isSome_map,
        ← kept?_purge_of_lasting now latest fun e => h k e hk] at hsome
      obtain ⟨e, he⟩ := Option.isSome_iff_exists.mp hsome
      exact ⟨e, he, by simpa [doomed, StoreCall.Touches] using hk⟩
  rw [settle_delete] at hanswer hcontents
  by_cases hsome : (s.values latest).Holds key recursive
  · rw [if_neg (mt hholds.mp (not_not_intro hsome))] at hanswer hcontents
    rw [hanswer, values_of_remove hnow hcontents, Values.perform_delete_of_holds hsome]
    rfl
  · rw [if_pos (hholds.mpr hsome)] at hanswer hcontents
    rw [hanswer, values_of_purge hnow hcontents, Values.perform_delete_of_not_holds hsome]
    rfl

omit hnow

/-- **A call on keys whose entries do not expire** is answered, up to indices, as the map answers
it, and leaves the map that is left there. -/
theorem Falters.values {c : StoreCall} {t : Store} {a : Except Error c.Result} (hc : c.OnKeys)
    (hlast : s.contents.LastingOn c.Touches)
    (h : Falters latest (fun _ => False) c s a t) :
    Values.perform c (s.values latest) = (c.bare a, t.values latest) := by
  cases h with
  | failed _ hfails => exact hfails.elim
  | performed now hnow =>
    cases c with
    | get key => exact values_get hnow fun e he => hlast key e rfl he
    | set key value ttl =>
      obtain rfl : ttl = none := hc
      exact values_set hnow
    | create key value ttl =>
      obtain rfl : ttl = none := hc
      exact values_create hnow fun e he => hlast key e rfl he
    | delete key recursive => exact values_delete hnow hlast
    | list dir recursive => exact hc.elim
    | addChild dir value ttl => exact hc.elim
    | watch key recursive => exact hc.elim

/-! ### Entries that do not expire -/

variable {keys : String → Prop} {c : Contents}

theorem lastingOn_purge (h : c.LastingOn keys) (now : Moment) :
    (c.purge now).2.LastingOn keys := by
  intro k e hk he
  rw [purge, kept?_remove] at he
  exact h k e hk (Option.filter_eq_some_iff.mp he).1

theorem lastingOn_put (action : Action) {ttl : Option Span} (h : c.LastingOn keys)
    (hkey : keys key → ttl = none) :
    (c.put now action key value ttl).2.2.LastingOn keys := by
  intro k e hk he
  rw [kept?_put] at he
  split at he
  · rename_i heq
    rw [← Option.some.inj he, hkey (heq ▸ hk)]
    rfl
  · exact h k e hk he

/-- A call that lets no entry of the keys expire. -/
def Spares (keys : String → Prop) : StoreCall → Prop
  | .set key _ ttl | .create key _ ttl => keys key → ttl = none
  | .addChild dir .. => ∀ name, ¬ keys (String.ofList (Path.dirLead dir ++ name))
  | .get _ | .list .. | .delete .. | .watch .. => True

/-- **Entries go on not to expire,** since nobody writes one of these keys for a limited time. -/
theorem lastingOn_perform {call : StoreCall} (h : s.contents.LastingOn keys)
    (hcall : Spares keys call) (now : Moment) :
    (s.perform now call).2.contents.LastingOn keys := by
  have hpurge := lastingOn_purge h now
  cases call with
  | get key => rwa [contents_of_isRead now rfl]
  | list dir recursive => rwa [contents_of_isRead now rfl]
  | set key value ttl =>
    have hcontents : (s.perform now (.set key value ttl)).2.contents = _ :=
      (s.update_eq_settle now fun c => .ok (c.put now .set key value ttl)).2.1
    rw [hcontents]
    exact lastingOn_put .set hpurge hcall
  | create key value ttl =>
    have hcontents : (s.perform now (.create key value ttl)).2.contents = _ :=
      (s.update_eq_settle now (·.create now key value ttl)).2.1
    rw [hcontents, settle_create]
    split
    · exact hpurge
    · exact lastingOn_put .create hpurge hcall
  | delete key recursive =>
    have hcontents : (s.perform now (.delete key recursive)).2.contents = _ :=
      (s.update_eq_settle now (·.delete key recursive)).2.1
    rw [hcontents, settle_delete]
    split
    · exact hpurge
    · intro k e hk he
      rw [kept?_remove] at he
      exact hpurge k e hk (Option.filter_eq_some_iff.mp he).1
  | addChild dir value ttl =>
    have hcontents : (s.perform now (.addChild dir value ttl)).2.contents = _ :=
      (s.update_eq_settle now
        fun c => .ok (c.put now .create (c.childKey dir) value (some ttl))).2.1
    rw [hcontents]
    exact lastingOn_put .create hpurge fun hk => absurd hk (hcall _)
  | watch key recursive => exact h

/-- Calls on keys, with values that stay, are no danger to other entries. -/
theorem Falters.lastingOn {call : StoreCall} {latest : Moment} {t : Store}
    {a : Except Error call.Result} (hcall : call.OnKeys) (h : s.contents.LastingOn keys)
    (hstep : Falters latest (fun _ => False) call s a t) : t.contents.LastingOn keys := by
  cases hstep with
  | performed now _ =>
    refine lastingOn_perform h ?_ now
    cases call with
    | get key => trivial
    | set key value ttl => exact fun _ => hcall
    | create key value ttl => exact fun _ => hcall
    | delete key recursive => trivial
    | list dir recursive => exact hcall.elim
    | addChild dir value ttl => exact hcall.elim
    | watch key recursive => exact hcall.elim
  | failed _ hfails => exact hfails.elim

/-! ### Other keys -/

/-- A key that a call may write or remove. The names of children are the store's own choice. -/
def Writes : StoreCall → String → Prop
  | .set key .., k | .create key .., k => k = key
  | .delete key recursive, k => k = key ∨ (recursive && Path.isUnder key k true) = true
  | .addChild dir .., k => ∃ name, k = String.ofList (Path.dirLead dir ++ name)
  | .get _, _ | .list .., _ | .watch .., _ => False

theorem living?_put (hnow : now ≤ latest) {k : String} (action : Action) (ttl : Option Span)
    (hk : k ≠ key) :
    ((s.contents.purge now).2.put now action key value ttl).2.2.living? latest k =
      s.contents.living? latest k := by
  rw [living?, kept?_put, if_neg hk, ← living?, living?_purge hnow]

/-- **A call leaves the other keys as they are.** -/
theorem living?_perform {call : StoreCall} {k : String} (hk : ¬ Writes call k)
    (hnow : now ≤ latest) :
    (s.perform now call).2.contents.living? latest k = s.contents.living? latest k := by
  have hpurge : (s.contents.purge now).2.living? latest k = s.contents.living? latest k :=
    living?_purge hnow k
  cases call with
  | get key => rwa [contents_of_isRead now rfl]
  | list dir recursive => rwa [contents_of_isRead now rfl]
  | set key value ttl =>
    have hcontents : (s.perform now (.set key value ttl)).2.contents = _ :=
      (s.update_eq_settle now fun c => .ok (c.put now .set key value ttl)).2.1
    rw [hcontents]
    exact living?_put hnow .set ttl hk
  | create key value ttl =>
    have hcontents : (s.perform now (.create key value ttl)).2.contents = _ :=
      (s.update_eq_settle now (·.create now key value ttl)).2.1
    rw [hcontents, settle_create]
    split
    · exact hpurge
    · exact living?_put hnow .create ttl hk
  | delete key recursive =>
    have hcontents : (s.perform now (.delete key recursive)).2.contents = _ :=
      (s.update_eq_settle now (·.delete key recursive)).2.1
    have hspared : ∀ e, doomed key recursive k e = false := by simpa [doomed, Writes] using hk
    rw [hcontents, settle_delete]
    split
    · exact hpurge
    · rw [← hpurge, living?, kept?_remove]
      simp [hspared, living?]
  | addChild dir value ttl =>
    have hcontents : (s.perform now (.addChild dir value ttl)).2.contents = _ :=
      (s.update_eq_settle now
        fun c => .ok (c.put now .create (c.childKey dir) value (some ttl))).2.1
    rw [hcontents]
    exact living?_put hnow .create (some ttl) fun heq => hk ⟨_, heq⟩
  | watch key recursive => rfl

/-! ### Removing one key -/

/-- A key that is not there cannot be removed. -/
theorem perform_delete_of_eq_none (h : s.contents.living? now key = none) :
    (s.perform now (.delete key false)).1 = .error (.keyNotFound key) ∧
      (s.perform now (.delete key false)).2.contents = (s.contents.purge now).2 := by
  have hnone : ((s.contents.purge now).2.entries.filter (doomed key false)).keys = [] := by
    refine List.eq_nil_iff_forall_not_mem.mpr fun k hk => ?_
    obtain ⟨e, he, hdoomed⟩ := mem_keys_filter_iff.mp hk
    obtain rfl : k = key := by simpa [doomed] using hdoomed
    rw [purge, kept?_remove] at he
    cases h.symm.trans he
  have hsettle := s.update_eq_settle now (·.delete key false)
  rw [settle_delete, if_pos hnone] at hsettle
  exact ⟨hsettle.1, hsettle.2.1⟩

theorem perform_delete_of_isSome (h : (s.contents.living? now key).isSome = true) :
    (s.perform now (.delete key false)).1 = .ok () ∧
      ∀ latest, (s.perform now (.delete key false)).2.contents.living? latest key = none := by
  have hsome : ((s.contents.purge now).2.entries.filter (doomed key false)).keys ≠ [] := by
    obtain ⟨e, he⟩ := Option.isSome_iff_exists.mp h
    refine List.ne_nil_of_mem (a := key) (mem_keys_filter_iff.mpr ⟨e, ?_, by simp [doomed]⟩)
    rw [purge, kept?_remove]
    exact he
  have hsettle := s.update_eq_settle now (·.delete key false)
  rw [settle_delete, if_neg hsome] at hsettle
  refine ⟨hsettle.1, fun latest => ?_⟩
  have hcontents : (s.perform now (.delete key false)).2.contents = _ := hsettle.2.1
  rw [hcontents, living?, kept?_remove]
  simp [doomed]

end Store

end ControlPlane
