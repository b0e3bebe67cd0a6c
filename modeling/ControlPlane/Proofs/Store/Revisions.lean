import ControlPlane.Proofs.Store.Ledger
import ControlPlane.Proofs.Store.Living
import ControlPlane.Proofs.Store.Watching

/-!
# Revisions

A store has one counter, and three kinds of events take the next number from it: an entry is
written, it is removed, or its time is found to be over. The number that a written entry keeps is
its revision. So a revision names one write out of all that ever happened, and whoever compares
revisions learns which of two values is the newer one, and whether a value is still the same.

That the counter counts nothing else is said of one call and without any log: first the call sheds
what is over (`Contents.Sheds`), then it does its own work (`Contents.Performs`). Both are accounts
by keys that leave nothing out, and the counter gains as much as they list. The rest is about whole
histories. Every node comes from a change in the log, and the log has each number once, in order.

Moments are arbitrary here. The counter does not care whether time goes back.

## Main definitions

* `StoreCall.written?`: the node that a call has written
* `Contents.Sheds`, `Contents.Performs`: all that a call does to the entries, counted

## Main results

* `Store.exists_performs`: the counter counts what a call does
* `Contents.Evolves.exists_change`: every node comes from a change
* `Contents.Evolves.stays_iff`: a node stays until its key changes
* `History.revisions_name_writes`: all of this along every history
-/

namespace ControlPlane

/-- The node that a call has written, as the call gives it to its client. A call that fails has
written none. -/
def StoreCall.written? : (call : StoreCall) → Except Error call.Result → Option Node
  | set .., .ok node => some node
  | create .., .ok node => some node
  | addChild .., .ok node => some node
  | _, _ => none

namespace Contents

/-! ### One call -/

/-- `p` is what is left of `c` when a call has dropped the entries whose time is over at the moment
`now`; `keys` are their keys. -/
structure Sheds (now : Moment) (call : StoreCall) (c p : Contents) (keys : List String) : Prop where
  nodup : keys.Nodup
  mem_iff : ∀ key, key ∈ keys ↔
    call.looks = true ∧ ∃ e, c.kept? key = some e ∧ e.expired now = true
  kept? : ∀ key, p.kept? key = if key ∈ keys then none else c.kept? key
  index : p.index = c.index + keys.length

/-- `d` is what a call that is answered by `answer` makes of `p`, of which nothing is over: it
removes the entries of `keys` and writes one at most. -/
structure Performs (call : StoreCall) (answer : Except Error call.Result) (p d : Contents)
    (keys : List String) : Prop where
  nodup : keys.Nodup
  mem_iff : ∀ key, key ∈ keys ↔ (p.kept? key).isSome = true ∧
    ∃ target recursive, call = .delete target recursive ∧ Path.Covers target key recursive
  written : ∀ node ∈ call.written? answer,
    (d.kept? node.key).map (Entry.toNode node.key) = some node ∧ node.index = d.index
  kept? : ∀ key, (∀ node ∈ call.written? answer, node.key ≠ key) →
    d.kept? key = if key ∈ keys then none else p.kept? key
  index : d.index = p.index + keys.length + (call.written? answer).toList.length

variable {call : StoreCall} {answer : Except Error call.Result} {now : Moment} {c d p : Contents}

theorem sheds_purge (c : Contents) (now : Moment) (hlooks : call.looks = true) :
    Sheds now call c (c.purge now).2 (c.entries.filter fun _ e => e.expired now).keys where
  nodup := KeyMap.nodup_keys _
  mem_iff key := by rw [mem_keys_filter_iff, and_iff_right hlooks]
  kept? := c.kept?_remove_eq_ite .expire _
  index := rfl

theorem sheds_nothing (c : Contents) (now : Moment) (hblind : call.looks = false) :
    Sheds now call c c [] where
  nodup := List.nodup_nil
  mem_iff key := by simp [hblind]
  kept? key := (if_neg List.not_mem_nil).symm
  index := rfl

theorem mem_nil_iff_removed (p : Contents)
    (hother : ∀ target recursive, call ≠ .delete target recursive) (key : String) :
    key ∈ [] ↔ (p.kept? key).isSome = true ∧
      ∃ target recursive, call = .delete target recursive ∧ Path.Covers target key recursive := by
  refine iff_of_false List.not_mem_nil ?_
  rintro ⟨-, target, recursive, hcall, -⟩
  exact hother target recursive hcall

theorem performs_nothing (p : Contents) (hnone : call.written? answer = none)
    (hother : ∀ target recursive, call ≠ .delete target recursive) :
    Performs call answer p p [] where
  nodup := List.nodup_nil
  mem_iff := mem_nil_iff_removed p hother
  written := by simp [hnone]
  kept? key _ := (if_neg List.not_mem_nil).symm
  index := by simp [hnone]

theorem performs_put (p : Contents) (now : Moment) (action : Action) (key value : String)
    (ttl : Option Span)
    (hwritten : call.written? answer = some (p.put now action key value ttl).1)
    (hother : ∀ target recursive, call ≠ .delete target recursive) :
    Performs call answer p (p.put now action key value ttl).2.2 [] where
  nodup := List.nodup_nil
  mem_iff := mem_nil_iff_removed p hother
  written node hnode := by
    obtain rfl := Option.some.inj (hwritten.symm.trans hnode)
    refine ⟨?_, rfl⟩
    rw [kept?_put]
    exact congrArg _ (if_pos rfl)
  kept? k hk := by
    have hne : k ≠ key := (hk _ hwritten).symm
    rw [kept?_put, if_neg hne, if_neg List.not_mem_nil]
  index := by
    rw [hwritten]
    rfl

/-- A creation that finds nothing under the key writes it, and otherwise it does nothing. -/
theorem performs_create (p : Contents) (now : Moment) {key value : String}
    {ttl : Option Span} {outcome : Except Error Node × Contents}
    (h : settle (·.create now key value ttl) p = outcome) :
    Performs (.create key value ttl) outcome.1 p outcome.2 [] := by
  rw [settle_create] at h
  split at h
  · obtain rfl := h
    exact performs_nothing p rfl nofun
  · obtain rfl := h
    exact p.performs_put now .create key value ttl rfl nofun

/-- A deletion removes all that it covers, which may be nothing. -/
theorem performs_delete (p : Contents) {key : String} {recursive : Bool}
    {outcome : Except Error Unit × Contents}
    (h : settle (·.delete key recursive) p = outcome) :
    Performs (.delete key recursive) outcome.1 p outcome.2
      (p.entries.filter (doomed key recursive)).keys := by
  have hmem : ∀ k, k ∈ (p.entries.filter (doomed key recursive)).keys ↔
      (p.kept? k).isSome = true ∧ ∃ target r,
        StoreCall.delete key recursive = .delete target r ∧ Path.Covers target k r := by
    intro k
    rw [mem_keys_filter_iff, Option.isSome_iff_exists]
    simp only [doomed_eq, decide_eq_true_iff, exists_and_right]
    refine and_congr_right fun _ => ⟨fun hcovers => ⟨key, recursive, rfl, hcovers⟩, ?_⟩
    rintro ⟨_, _, hcall, hcovers⟩
    cases hcall
    exact hcovers
  by_cases hnil : (p.entries.filter (doomed key recursive)).keys = []
  · simp only [settle, delete_eq, if_pos hnil] at h
    obtain rfl := h
    exact
      { nodup := KeyMap.nodup_keys _
        mem_iff := hmem
        written := fun node hnode => by cases hnode
        kept? := fun k _ => by rw [hnil]; rfl
        index := by rw [hnil]; rfl }
  · simp only [settle, delete_eq, if_neg hnil] at h
    obtain rfl := h
    exact
      { nodup := KeyMap.nodup_keys _
        mem_iff := hmem
        written := fun node hnode => by cases hnode
        kept? := fun k _ => p.kept?_remove_eq_ite .delete _ k
        index := rfl }

end Contents

open Contents in
/-- A call that looks at the entries sheds what is over and does its work on the rest. -/
theorem Store.exists_performs_of_looks (s : Store) {now : Moment} {call : StoreCall}
    (hlooks : call.looks = true) {effect : Contents → Effect call.Result}
    (hperform : s.perform now call = s.update now effect)
    (hperforms : ∀ {outcome}, settle effect (s.contents.purge now).2 = outcome →
      ∃ removed, Performs call outcome.1 (s.contents.purge now).2 outcome.2 removed) :
    ∃ p lapsed removed, Sheds now call s.contents p lapsed ∧
      Performs call (s.perform now call).1 p (s.perform now call).2.contents removed := by
  obtain ⟨hanswer, hcontents, -⟩ := s.update_eq_settle now effect
  obtain ⟨removed, hperforms⟩ := hperforms rfl
  rw [hperform, hanswer, hcontents]
  exact ⟨_, _, removed, sheds_purge _ now hlooks, hperforms⟩

open Contents in
/-- **The counter counts what a call does:** what it found to have expired, what it removed and what
it wrote. -/
theorem Store.exists_performs (s : Store) (now : Moment) (call : StoreCall) :
    ∃ p lapsed removed, Sheds now call s.contents p lapsed ∧
      Performs call (s.perform now call).1 p (s.perform now call).2.contents removed := by
  cases call with
  | watch key recursive =>
    exact ⟨_, _, _, sheds_nothing _ now rfl, performs_nothing _ rfl nofun⟩
  | get key =>
    refine ⟨_, _, [], sheds_purge _ now rfl, ?_⟩
    rw [contents_of_isRead now rfl]
    exact performs_nothing _ rfl nofun
  | list dir recursive =>
    refine ⟨_, _, [], sheds_purge _ now rfl, ?_⟩
    rw [contents_of_isRead now rfl]
    exact performs_nothing _ rfl nofun
  | set key value ttl =>
    have hperform : s.perform now (.set key value ttl) =
        s.update now fun c => .ok (c.put now .set key value ttl) := rfl
    refine s.exists_performs_of_looks rfl hperform fun h => ⟨[], ?_⟩
    obtain rfl := h
    exact performs_put _ now .set key value ttl rfl nofun
  | addChild dir value ttl =>
    have hperform : s.perform now (.addChild dir value ttl) =
        s.update now fun c => .ok (c.put now .create (c.childKey dir) value (some ttl)) := rfl
    refine s.exists_performs_of_looks rfl hperform fun h => ⟨[], ?_⟩
    obtain rfl := h
    exact performs_put _ now .create _ value (some ttl) rfl nofun
  | create key value ttl =>
    exact s.exists_performs_of_looks rfl rfl fun h => ⟨_, performs_create _ now h⟩
  | delete key recursive =>
    exact s.exists_performs_of_looks rfl rfl fun h => ⟨_, performs_delete _ h⟩

/-! ### Whole histories -/

theorem Change.node_of_leftNode (x : Change) {node : Node} (h : x.leftNode = some node) :
    x.node = node := by
  rw [leftNode] at h
  split at h
  · cases h
  · exact Option.some.inj h

namespace Contents

variable {c d : Contents} {changes : List Change}

theorem Evolves.index_eq (h : Evolves c changes d) : d.index = c.index + changes.length := by
  induction h with
  | refl c => rfl
  | change hmakes _ ih =>
    rw [ih, hmakes.advances, List.length_cons]
    omega

theorem Evolves.index_bounds (h : Evolves c changes d) {x : Change} (hx : x ∈ changes) :
    c.index < x.node.index ∧ x.node.index ≤ d.index := by
  have hmem : x.node.index ∈ List.range' (c.index + 1) changes.length :=
    h.indices ▸ List.mem_map_of_mem hx
  obtain ⟨hlow, hhigh⟩ := List.mem_range'_1.mp hmem
  rw [h.index_eq]
  omega

/-- A number names one change, since numbers are given out one after the other. -/
theorem Evolves.eq_of_index (h : Evolves c changes d) {x y : Change} (hx : x ∈ changes)
    (hy : y ∈ changes) (hxy : x.node.index = y.node.index) : x = y := by
  have hnodup : (changes.map (·.node.index)).Nodup := h.indices ▸ List.nodup_range'
  exact List.inj_on_of_nodup_map hnodup hx hy hxy

/-- **Every node comes from a change.** So what holds of the numbers of changes holds of those of
nodes. -/
theorem Evolves.exists_change (h : Evolves {} changes d) {node : Node}
    (hnode : (d.kept? node.key).map (Entry.toNode node.key) = some node) :
    ∃ x ∈ changes, x.node = node := by
  rw [h.node node.key] at hnode
  cases hlast : (changes.filter fun x => x.node.key == node.key).getLast? with
  | none =>
    rw [hlast] at hnode
    cases hnode
  | some x =>
    rw [hlast, Option.elim_some] at hnode
    exact ⟨x, List.mem_of_mem_filter (List.mem_of_getLast? hlast), x.node_of_leftNode hnode⟩

/-- **A node stays until its key changes.** If the key is written again, it is with another number,
and so it is another node even where the value is the same. -/
theorem Evolves.stays_iff (h : Evolves c changes d) {node : Node}
    (hnode : (c.kept? node.key).map (Entry.toNode node.key) = some node)
    (hindex : node.index ≤ c.index) :
    (d.kept? node.key).map (Entry.toNode node.key) = some node ↔
      ∀ x ∈ changes, x.node.key ≠ node.key := by
  rw [h.node node.key, hnode]
  cases hlast : (changes.filter fun x => x.node.key == node.key).getLast? with
  | none =>
    refine iff_of_true rfl fun x hx hkey => ?_
    have hmem : x ∈ changes.filter fun x => x.node.key == node.key :=
      List.mem_filter.mpr ⟨hx, beq_iff_eq.mpr hkey⟩
    rw [List.getLast?_eq_none_iff.mp hlast] at hmem
    cases hmem
  | some x =>
    obtain ⟨hx, hkey⟩ := List.mem_filter.mp (List.mem_of_getLast? hlast)
    refine iff_of_false (fun hleft => ?_) fun hnever => hnever x hx (beq_iff_eq.mp hkey)
    -- the last change of the key came later than the node
    obtain rfl : x.node = node := x.node_of_leftNode hleft
    exact Nat.not_lt.mpr hindex (h.index_bounds hx).1

end Contents

namespace History

variable {h t : History} {node : Node}

/-- Every node that is there has had its number. -/
theorem Sound.index_bounds (hsound : h.Sound) (node : Node)
    (hnode : (h.store.contents.kept? node.key).map (Entry.toNode node.key) = some node) :
    1 ≤ node.index ∧ node.index ≤ h.store.contents.index := by
  obtain ⟨x, hx, rfl⟩ := hsound.evolved.exists_change hnode
  exact hsound.evolved.index_bounds hx

/-- No two nodes share a number, even if they belong to different keys. -/
theorem Sound.node_eq (hsound : h.Sound) (node node' : Node)
    (hnode : (h.store.contents.kept? node.key).map (Entry.toNode node.key) = some node)
    (hnode' : (h.store.contents.kept? node'.key).map (Entry.toNode node'.key) = some node')
    (hindex : node'.index = node.index) : node' = node := by
  obtain ⟨x, hx, rfl⟩ := hsound.evolved.exists_change hnode
  obtain ⟨x', hx', rfl⟩ := hsound.evolved.exists_change hnode'
  exact congrArg Change.node (hsound.evolved.eq_of_index hx' hx hindex)

/-- **A node is read until its key changes.** The reading itself may change it, if the time of the
entry is over. -/
theorem Sound.get_eq_iff (hsound : t.Sound)
    (hnode : (t.store.contents.kept? node.key).map (Entry.toNode node.key) = some node)
    (later : List Move) (moment : Moment) :
    let u := t.follow later
    (u.store.perform moment (.get node.key)).1 = .ok node ↔
      ∀ x ∈ (u.after (.call moment (.get node.key))).log.drop t.log.length,
        x.node.key ≠ node.key := by
  intro u
  obtain ⟨changes, hlog, hevolves⟩ := t.evolves_follow (later ++ [.call moment (.get node.key)])
  rw [follow_concat] at hlog hevolves
  rw [u.store.perform_get_eq_ok_iff moment, hlog, List.drop_left]
  exact hevolves.stays_iff hnode (hsound.index_bounds node hnode).2

/-- The log has each number once, in order, and the counter is the last of them. -/
theorem Sound.indices (hsound : h.Sound) :
    h.log.map (·.node.index) = List.range' 1 h.store.contents.index := by
  have hlength : h.store.contents.index = h.log.length := by
    rw [hsound.evolved.index_eq]
    exact Nat.zero_add _
  rw [hlength]
  exact hsound.evolved.indices

/-- A node with the number that the counter stands at is newer than all else. -/
theorem Sound.newest (hsound : h.Sound)
    (hnode : (h.store.contents.kept? node.key).map (Entry.toNode node.key) = some node)
    (hindex : node.index = h.store.contents.index) {x : Change} (hx : x ∈ h.log) :
    x.node = node ∨ x.node.index < node.index := by
  obtain ⟨y, hy, rfl⟩ := hsound.evolved.exists_change hnode
  by_cases hxy : x.node.index = y.node.index
  · exact .inl (congrArg Change.node (hsound.evolved.eq_of_index hx hy hxy))
  · exact .inr (Nat.lt_of_le_of_ne (hindex ▸ (hsound.evolved.index_bounds hx).2) hxy)

/-- **Revisions name writes.** Every change of a store has the next number, and no other event takes
one; so entries are told apart by their numbers, a call moves the counter by as many entries as it
wrote, removed or found to be over, and what it wrote is newer than all else and is read until its
key changes. -/
theorem revisions_name_writes (moves : List Move) :
    let h : History := follow {} moves
    Contents.Evolves {} h.log h.store.contents ∧
      h.log.map (·.node.index) = List.range' 1 h.store.contents.index ∧
      (∀ key e, h.store.contents.kept? key = some e →
        1 ≤ e.index ∧ e.index ≤ h.store.contents.index ∧
          ∀ key' e', h.store.contents.kept? key' = some e' → e'.index = e.index → key' = key) ∧
      ∀ now call,
        let answer := (h.store.perform now call).1
        let t := h.after (.call now call)
        (∃ p lapsed removed, Contents.Sheds now call h.store.contents p lapsed ∧
          Contents.Performs call answer p t.store.contents removed ∧
          t.store.contents.index = h.store.contents.index + lapsed.length + removed.length +
            (call.written? answer).toList.length) ∧
        ∀ node ∈ call.written? answer,
          h.store.contents.index < node.index ∧
            (∀ x ∈ t.log, x.node = node ∨ x.node.index < node.index) ∧
            ∀ later moment,
              let u := t.follow later
              (u.store.perform moment (.get node.key)).1 = .ok node ↔
                ∀ x ∈ (u.after (.call moment (.get node.key))).log.drop t.log.length,
                  x.node.key ≠ node.key := by
  intro h
  have hsound : h.Sound := sound_start.follow moves
  refine ⟨hsound.evolved, hsound.indices, fun key e he => ?_, fun now call => ?_⟩
  · have hnode := congrArg (Option.map (Entry.toNode key)) he
    obtain ⟨hlow, hhigh⟩ := hsound.index_bounds (e.toNode key) hnode
    refine ⟨hlow, hhigh, fun key' e' he' hindex => ?_⟩
    have hnode' := congrArg (Option.map (Entry.toNode key')) he'
    exact congrArg Node.key (hsound.node_eq (e.toNode key) (e'.toNode key') hnode hnode' hindex)
  intro answer t
  have htold : t.Sound := hsound.after _
  obtain ⟨p, lapsed, removed, hsheds, hperforms⟩ := h.store.exists_performs now call
  have hindex : t.store.contents.index = h.store.contents.index + lapsed.length + removed.length +
      (call.written? answer).toList.length := by
    rw [← hsheds.index]
    exact hperforms.index
  refine ⟨⟨p, lapsed, removed, hsheds, hperforms, hindex⟩, fun node hnode => ?_⟩
  obtain ⟨hkept, hnewest⟩ := hperforms.written node hnode
  change (t.store.contents.kept? node.key).map _ = _ at hkept
  change node.index = t.store.contents.index at hnewest
  refine ⟨?_, fun x => htold.newest hkept hnewest, htold.get_eq_iff hkept⟩
  rw [hnewest, hindex, hnode]
  exact Nat.lt_succ_of_le (by omega)

/-- A lease that is over when another key is written, a queue that is emptied, and a creation that
fails: the numbers one to five are taken, the third by the lease that went. The next node has the
sixth number, and it is read until somebody writes its key again. -/
def emptiedQueue : List Move :=
  [.call 0 (.set "/lease" "first" (some (Span.ofSeconds 1))),
    .call 0 (.addChild "/queue" "task" (Span.ofSeconds 9)),
    .call 0 (.create "/lease" "second" none),
    .call 1000000000 (.set "/state" "busy" none),
    .call 1000000000 (.delete "/queue" true)]

theorem revisions_name_writes_emptiedQueue :
    let h : History := follow {} emptiedQueue
    let node : Node := ⟨"/state", "idle", 6⟩
    let t := h.after (.call 2000000000 (.set "/state" "idle" none))
    h.log.map (·.node.key) = ["/lease", "/queue/00000000000000000002", "/lease", "/state",
      "/queue/00000000000000000002"] ∧
      h.log.map (·.node.index) = List.range' 1 5 ∧
      (t.store.perform 2000000000 (.get "/state")).1 = .ok node ∧
      ((t.follow [.call 2000000000 (.set "/state" "idle" none)]).store.perform 2000000000
        (.get "/state")).1 ≠ .ok node := by
  intro h node t
  obtain ⟨-, hindices, -, hcalls⟩ := revisions_name_writes emptiedQueue
  obtain ⟨-, -, hreads⟩ :=
    (hcalls 2000000000 (.set "/state" "idle" none)).2 node (by decide +kernel)
  refine ⟨by decide +kernel, hindices, ?_, ?_⟩
  · exact (hreads [] 2000000000).mpr (by decide +kernel)
  · exact fun hread => absurd ((hreads _ 2000000000).mp hread) (by decide +kernel)

end History

end ControlPlane
