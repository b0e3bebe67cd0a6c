import ControlPlane.Proofs.Store.Lasting

/-!
# Changes, one by one

A call computes its changes in one go: an expiry or a removal of a directory takes many entries out
of the map at once. Readers are told of single changes all the same, and this is justified here:
what a call leaves of the entries is what its changes make of them one after the other, each of them
counted by the index.

The changes of a call are therefore a complete account of what it did. Nothing is changed without a
change that says so, and no change is said that was not made.

## Main definitions

* `Contents.Makes`: one change
* `Contents.Evolves`: changes, one after the other
* `StoreCall.changes`: the changes of a call, and what they leave
* `StoreCall.opened`: the subscriptions that a call opens

## Main results

* `Contents.Evolves.node`: the last change of a key decides what is under it
* `Contents.evolves_remove`: many entries go one by one
* `Store.perform_eq_deliver`: a call makes its changes and hands them on
* `StoreCall.evolves`: and they account for what it leaves
-/

namespace ControlPlane

/-- What a change leaves under its key: a value, or nothing. -/
def Change.left (x : Change) : Option String :=
  if x.action.isRemoval then none else some x.node.value

/-- What a change leaves under its key, as a node. -/
def Change.leftNode (x : Change) : Option Node :=
  if x.action.isRemoval then none else some x.node

theorem Change.left_eq_map (x : Change) : x.left = x.leftNode.map (·.value) := by
  rw [left, leftNode]
  split <;> rfl

/-- What some changes leave under a key where there was nothing before. -/
def lastLeft (log : List Change) (key : String) : Option String :=
  (log.filter fun x => x.node.key == key).getLast?.bind Change.left

namespace Contents

/-- `d` is what the change `x`, made at the moment `now`, leaves of `c`. It has the next index, and
its node is the entry after it; of a key that is gone the value is empty. -/
structure Makes (now : Moment) (c : Contents) (x : Change) (d : Contents) : Prop where
  index : x.node.index = c.index + 1
  advances : d.index = c.index + 1
  frame : ∀ key, key ≠ x.node.key → d.kept? key = c.kept? key
  writes : x.action.isRemoval = false →
    ∃ e, d.kept? x.node.key = some e ∧ e.value = x.node.value ∧ e.index = x.node.index
  removes : x.action.isRemoval = true →
    (c.kept? x.node.key).isSome = true ∧ d.kept? x.node.key = none ∧ x.node.value = ""
  expires : x.action = .expire → ∃ e, c.kept? x.node.key = some e ∧ e.expired now = true

/-- `d` is what changes leave of `c` that are made one after the other. -/
inductive Evolves : Contents → List Change → Contents → Prop
  | refl (c : Contents) : Evolves c [] c
  | change {now : Moment} {c d e : Contents} {x : Change} {changes : List Change} :
      Makes now c x d → Evolves d changes e → Evolves c (x :: changes) e

variable {c d e : Contents} {now : Moment} {x : Change} {changes more : List Change}

theorem Evolves.trans (h : Evolves c changes d) (h' : Evolves d more e) :
    Evolves c (changes ++ more) e := by
  induction h with
  | refl c => exact h'
  | change hmakes _ ih => exact .change hmakes (ih h')

/-- **The index counts the changes.** Every change takes the next number, whether it writes, removes
or lets something expire, so the numbers have no gaps. -/
theorem Evolves.indices (h : Evolves c changes d) :
    changes.map (·.node.index) = List.range' (c.index + 1) changes.length := by
  induction h with
  | refl c => rfl
  | change hmakes _ ih =>
    rw [List.map_cons, List.length_cons, List.range'_succ, ih, hmakes.index, hmakes.advances]

/-- Every change has a larger index than those before it. -/
theorem Evolves.increasing (h : Evolves c changes d) :
    changes.Pairwise fun x y => x.node.index < y.node.index := by
  have hindices : (changes.map (·.node.index)).Pairwise (· < ·) := by
    rw [h.indices]
    exact List.pairwise_lt_range'
  exact List.pairwise_map.mp hindices

/-- A change leaves under its key what it says. -/
theorem Makes.node (h : Makes now c x d) (key : String) :
    (d.kept? key).map (Entry.toNode key) =
      if x.node.key == key then x.leftNode else (c.kept? key).map (Entry.toNode key) := by
  by_cases hkey : x.node.key = key
  · obtain rfl := hkey
    rw [if_pos (beq_self_eq_true _), Change.leftNode]
    cases hremoval : x.action.isRemoval with
    | true => rw [(h.removes hremoval).2.1, if_pos rfl, Option.map_none]
    | false =>
      obtain ⟨e, he, hvalue, hindex⟩ := h.writes hremoval
      rw [he, if_neg Bool.false_ne_true, Option.map_some, Entry.toNode, hvalue, hindex]
  · rw [if_neg (by simpa using hkey), h.frame key fun heq => hkey heq.symm]

/-- **The last change of a key decides what is under it.** -/
theorem Evolves.node (h : Evolves c changes d) (key : String) :
    (d.kept? key).map (Entry.toNode key) =
      (changes.filter fun x => x.node.key == key).getLast?.elim
        ((c.kept? key).map (Entry.toNode key)) Change.leftNode := by
  induction h with
  | refl c => rfl
  | @change _ c d e x changes hmakes _ ih =>
    rw [ih, hmakes.node key, List.filter_cons]
    split
    · rw [List.getLast?_cons]
      cases (changes.filter fun x => x.node.key == key).getLast? <;> rfl
    · rfl

/-- So it is the last change of a key that decides about its value. -/
theorem Evolves.value (h : Evolves c changes d) (key : String) :
    (d.kept? key).map (·.value) =
      (changes.filter fun x => x.node.key == key).getLast?.elim
        ((c.kept? key).map (·.value)) Change.left := by
  have hvalue : ∀ found : Option Entry,
      found.map (·.value) = (found.map (Entry.toNode key)).map (·.value) := by
    intro found
    cases found <;> rfl
  rw [hvalue, h.node key, hvalue (c.kept? key)]
  cases (changes.filter fun x => x.node.key == key).getLast? with
  | none => rfl
  | some x => exact x.left_eq_map.symm

theorem Evolves.lastLeft_eq (h : Evolves {} changes d) (key : String) :
    (d.kept? key).map (·.value) = lastLeft changes key := by
  rw [h.value key, lastLeft]
  cases (changes.filter fun x => x.node.key == key).getLast? <;> rfl

/-! ### Removals -/

theorem eq_of_kept? (hindex : d.index = c.index) (h : ∀ key, d.kept? key = c.kept? key) :
    d = c := by
  have hentries : d.entries = c.entries := KeyMap.ext_get? h
  cases c
  cases d
  simp_all

/-- **Keys that go at once might go one after the other.** -/
theorem evolves_removals (now : Moment) {action : Action} (hremoval : action.isRemoval = true)
    {keys : List String} (hkeys : keys.Nodup) (hindex : d.index = c.index + keys.length)
    (hkept : ∀ key, d.kept? key = if key ∈ keys then none else c.kept? key)
    (hthere : ∀ key ∈ keys, ∃ e, c.kept? key = some e ∧ (action = .expire → e.expired now = true)) :
    Evolves c (removals action c.index keys) d := by
  induction keys generalizing c with
  | nil =>
    obtain rfl : d = c := eq_of_kept? hindex fun key => by simpa using hkept key
    exact .refl d
  | cons key keys ih =>
    obtain ⟨hnew, hrest⟩ := List.nodup_cons.mp hkeys
    obtain ⟨e, he, hexpired⟩ := hthere key (List.mem_cons_self ..)
    -- what is there after the first key has gone
    set next : Contents := { entries := c.entries.erase key, index := c.index + 1 }
    have hnext : ∀ k, next.kept? k = if k = key then none else c.kept? k :=
      KeyMap.get?_erase c.entries key
    have hmakes : Makes now c ⟨action, ⟨key, "", c.index + 1⟩⟩ next :=
      { index := rfl
        advances := rfl
        frame := fun k hk => by rw [hnext, if_neg hk]
        writes := fun hwrite => absurd (hwrite.symm.trans hremoval) (by decide)
        removes := fun _ => ⟨Option.isSome_iff_exists.mpr ⟨e, he⟩, by rw [hnext, if_pos rfl], rfl⟩
        expires := fun hexpire => ⟨e, he, hexpired hexpire⟩ }
    refine .change hmakes (ih hrest ?_ ?_ ?_)
    · rw [hindex, List.length_cons, show next.index = c.index + 1 from rfl]
      omega
    · intro k
      rw [hkept, hnext]
      by_cases hk : k = key <;> simp [hk]
    · intro k hk
      obtain ⟨e', he', hexpired'⟩ := hthere k (List.mem_cons_of_mem key hk)
      have hne : k ≠ key := fun heq => hnew (heq ▸ hk)
      exact ⟨e', by rw [hnext, if_neg hne, he'], hexpired'⟩

/-- **Entries that are removed at once go one by one.** -/
theorem evolves_remove (c : Contents) (now : Moment) {action : Action}
    (hremoval : action.isRemoval = true) (doomed : String → Entry → Bool)
    (hdoomed : action = .expire → ∀ key e, doomed key e = true → e.expired now = true) :
    Evolves c (c.remove action doomed).1 (c.remove action doomed).2 := by
  refine evolves_removals now hremoval (KeyMap.nodup_keys _) rfl
    (c.kept?_remove_eq_ite action doomed) fun key hkey => ?_
  obtain ⟨e, he, hgone⟩ := mem_keys_filter_iff.mp hkey
  exact ⟨e, he, fun hexpire => hdoomed hexpire key e hgone⟩

theorem evolves_purge (c : Contents) (now : Moment) : Evolves c (c.purge now).1 (c.purge now).2 :=
  c.evolves_remove now rfl (fun _ entry => entry.expired now) fun _ _ _ hexpired => hexpired

/-! ### Writes -/

theorem evolves_put (c : Contents) (now : Moment) {action : Action}
    (hwrite : action.isRemoval = false)
    (key value : String) (ttl : Option Span) :
    Evolves c (c.put now action key value ttl).2.1 (c.put now action key value ttl).2.2 := by
  set entry : Entry :=
    { value := value, index := c.index + 1, expires := ttl.map fun ttl => now + ttl.toNanos }
  have hget : ∀ k, (c.entries.insert key entry).get? k =
      if k = key then some entry else c.kept? k :=
    fun k => KeyMap.get?_insert c.entries key k entry
  have hmakes : Makes now c ⟨action, entry.toNode key⟩ (c.put now action key value ttl).2.2 :=
    { index := rfl
      advances := rfl
      frame := fun k hk => (hget k).trans (if_neg hk)
      writes := fun _ => ⟨entry, (hget key).trans (if_pos rfl), rfl, rfl⟩
      removes := fun hremoval => absurd (hwrite.symm.trans hremoval) (by decide)
      expires := fun hexpire => by
        obtain rfl : action = .expire := hexpire
        cases hwrite }
  exact .change hmakes (.refl _)

/-! ### Calls -/

/-- The changes of a call are all that it does to the contents. -/
def Accounted {α : Type} (call : Contents → Effect α) : Prop :=
  ∀ c r changes d, call c = .ok (r, changes, d) → Evolves c changes d

theorem accounted_get (key : String) : Accounted (·.get key) := by
  intro c r changes d h
  dsimp only [get] at h
  split at h
  · cases h
    exact .refl c
  · cases h

theorem accounted_list (dir : String) (recursive : Bool) : Accounted (·.list dir recursive) := by
  intro c r changes d h
  dsimp only [list] at h
  split at h
  · cases h
  · cases h
    exact .refl c

theorem accounted_put (action : Action) (hwrite : action.isRemoval = false) (now : Moment)
    (key : Contents → String) (value : String) (ttl : Option Span) :
    Accounted fun c => .ok (c.put now action (key c) value ttl) := by
  intro c r changes d h
  cases h
  exact c.evolves_put now hwrite (key c) value ttl

theorem accounted_create (now : Moment) (key value : String) (ttl : Option Span) :
    Accounted (·.create now key value ttl) := by
  intro c r changes d h
  dsimp only [create] at h
  split at h
  · cases h
  · cases h
    exact c.evolves_put now rfl key value ttl

theorem accounted_delete (key : String) (recursive : Bool) : Accounted
    (·.delete key recursive) := by
  intro c r changes d h
  dsimp only at h
  rw [delete_eq] at h
  split at h
  · cases h
  · cases h
    exact c.evolves_remove 0 rfl (doomed key recursive) fun hexpire => by cases hexpire

/-- The changes that a call makes at the moment `now`, those of expired entries first, and what they
leave. -/
def changed {α : Type} (now : Moment) (call : Contents → Effect α) (c : Contents) :
    List Change × Contents :=
  match call (c.purge now).2 with
  | .ok (_, changes, d) => ((c.purge now).1 ++ changes, d)
  | .error _ => c.purge now

theorem Accounted.evolves {α : Type} {call : Contents → Effect α} (h : Accounted call)
    (now : Moment)
    (c : Contents) : Evolves c (c.changed now call).1 (c.changed now call).2 := by
  have hpurge := c.evolves_purge now
  rw [changed]
  split
  · rename_i r changes d heq
    exact hpurge.trans (h _ r changes d heq)
  · exact hpurge

end Contents

/-- The changes of a call of the store, and what they leave. -/
def StoreCall.changes (now : Moment) : StoreCall → Contents → List Change × Contents
  | .get key => Contents.changed now (·.get key)
  | .list dir recursive => Contents.changed now (·.list dir recursive)
  | .set key value ttl => Contents.changed now fun c => .ok (c.put now .set key value ttl)
  | .create key value ttl => Contents.changed now (·.create now key value ttl)
  | .delete key recursive => Contents.changed now (·.delete key recursive)
  | .addChild dir value ttl =>
    Contents.changed now fun c => .ok (c.put now .create (c.childKey dir) value (some ttl))
  | .watch .. => fun c => ([], c)

/-- A subscription to a key, without the slashes at its end, that was opened just now. -/
def Subscription.fresh (key : String) (recursive : Bool) : Subscription where
  key := String.ofList (trimEnd '/' key.toList)
  recursive := recursive
  feed := { capacity := bufferSize }

/-- The subscriptions that a call opens, with feeds in which nothing is buffered. -/
def StoreCall.opened : StoreCall → List Subscription
  | .watch key recursive => [.fresh key recursive]
  | .get _ | .list .. | .set .. | .create .. | .delete .. | .addChild .. => []

/-- **The changes of a call account for all that it does to the contents.** -/
theorem StoreCall.evolves (now : Moment) (call : StoreCall) (c : Contents) :
    c.Evolves (call.changes now c).1 (call.changes now c).2 := by
  cases call with
  | get key => exact (Contents.accounted_get key).evolves now c
  | list dir recursive => exact (Contents.accounted_list dir recursive).evolves now c
  | set key value ttl =>
    exact (Contents.accounted_put .set rfl now (fun _ => key) value ttl).evolves now c
  | create key value ttl => exact (Contents.accounted_create now key value ttl).evolves now c
  | delete key recursive => exact (Contents.accounted_delete key recursive).evolves now c
  | addChild dir value ttl =>
    exact (Contents.accounted_put .create rfl now (·.childKey dir) value (some ttl)).evolves now c
  | watch key recursive => exact .refl c

namespace Store

theorem update_eq_deliver {α : Type} (s : Store) (now : Moment)
    (call : Contents → Contents.Effect α) :
    (s.update now call).2 =
      { s with contents := (s.contents.changed now call).2 }.deliver
        (s.contents.changed now call).1 := by
  rw [update, Contents.changed]
  generalize s.contents.purge now = purged
  obtain ⟨expiries, current⟩ := purged
  cases hcall : call current with
  | ok result => simp only [hcall]
  | error e => simp only [hcall]

/-- **A call makes its changes and hands them on.** -/
theorem perform_eq_deliver (s : Store) (now : Moment) (call : StoreCall) :
    (s.perform now call).2 =
      { contents := (call.changes now s.contents).2
        subscriptions :=
          s.subscriptions.map (Subscription.deliver (call.changes now s.contents).1) ++
            call.opened } := by
  cases call with
  | watch key recursive =>
    have hnone : s.subscriptions.map (Subscription.deliver []) = s.subscriptions := List.map_id _
    rw [StoreCall.changes, hnone]
    rfl
  | _ =>
    rw [StoreCall.opened, List.append_nil]
    exact s.update_eq_deliver now _

end Store

end ControlPlane
