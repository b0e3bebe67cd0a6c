import ControlPlane.Proofs.Store.Ledger

/-!
# The store answers as its record demands

The entries of a store are what its record holds (`held?`). A call that looks at them first drops
what is over, and what it then finds is what is present at its moment (`present?`): a value that
some call has found to be over is over for all later calls, because moments never go back. So every
call is judged on contents that show exactly what is present, and it leaves contents that hold what
the longer record holds.

## Main definitions

* `Contents.Shows`: the contents are what is present
* `Store.Matches`: the store holds what the record holds
* `Store.answers`: the record of calls on an empty store

## Main results

* `filter_held?`: what is held and lasts is what is present
* `Store.Matches.perform`: one call
* `Store.answers_right`: all calls, whatever was asked before
-/

namespace ControlPlane

/-- The entry that is kept of a write. Its end is fixed when it is written, and does not move. -/
def Write.entry (w : Write) : Entry :=
  ⟨w.value, w.index, w.ttl.map fun ttl => w.made + ttl.toNanos⟩

theorem Write.expired_entry (w : Write) (now : Moment) : w.entry.expired now = !w.lasts now := by
  obtain ⟨value, index, made, ttl⟩ := w
  cases ttl with
  | none => rfl
  | some ttl =>
    show decide (made + ttl.toNanos ≤ now) = !decide (now < made + ttl.toNanos)
    rw [Bool.eq_iff_iff, Bool.not_eq_true', decide_eq_true_iff, decide_eq_false_iff_not, Nat.not_lt]

/-- **What is held and lasts is what is present.** What an earlier call has dropped is over by now
as well. -/
theorem filter_held? {past : List Served} {now : Moment} (h : ∀ s ∈ past, s.now ≤ now)
    (key : String) : (held? past key).filter (·.lasts now) = present? past now key := by
  rw [present?]
  induction past with
  | nil => rfl
  | cons s past ih =>
    rw [held?, latest?]
    cases s.wrote? key with
    | some w => rfl
    | none =>
      cases s.deleted key with
      | true => rfl
      | false =>
        have hearlier : s.now ≤ now := h s (List.mem_cons_self ..)
        have hboth : ∀ w : Write,
            ((!s.call.looks || w.lasts s.now) && w.lasts now) = w.lasts now := by
          intro w
          cases hw : w.lasts now with
          | false => rw [Bool.and_false]
          | true => rw [Write.lasts_of_le hearlier hw, Bool.or_true, Bool.and_self]
        show ((held? past key).filter _).filter _ = (latest? past key).filter _
        rw [Option.filter_filter, ← ih fun s' hs' => h s' (List.mem_cons_of_mem s hs')]
        simp only [hboth]

namespace Contents

/-- The contents are what is present at a moment. -/
def Shows (p : Contents) (past : List Served) (now : Moment) : Prop :=
  ∀ key, p.kept? key = (present? past now key).map Write.entry

/-- The answer is right, and what is left is what was present but for what the call did. -/
structure Answered (past : List Served) (now : Moment) (p : Contents) (call : StoreCall)
    (outcome : Except Error call.Result × Contents) : Prop where
  answers : Answers past now p.index call outcome.1 outcome.2.index
  kept? : ∀ key, outcome.2.kept? key =
    (((Served.mk now call outcome.1 outcome.2.index).wrote? key).or
      (if (Served.mk now call outcome.1 outcome.2.index).deleted key then none
        else present? past now key)).map Write.entry

variable {past : List Served} {now : Moment} {p : Contents}

/-! ### One call on what is present -/

theorem Shows.answered_get (h : p.Shows past now) {key : String}
    {outcome : Except Error Node × Contents} (houtcome : settle (·.get key) p = outcome) :
    Answered past now p (.get key) outcome := by
  have hkey : p.entries.get? key = (present? past now key).map Write.entry := h key
  cases hw : present? past now key with
  | none =>
    rw [hw, Option.map_none] at hkey
    simp only [settle, get, hkey] at houtcome
    obtain rfl := houtcome
    exact ⟨⟨rfl, by rw [hw]; rfl⟩, h⟩
  | some w =>
    rw [hw, Option.map_some] at hkey
    simp only [settle, get, hkey] at houtcome
    obtain rfl := houtcome
    exact ⟨⟨rfl, by rw [hw]; rfl⟩, h⟩

theorem Shows.answered_list (h : p.Shows past now) {dir : String} {recursive : Bool}
    {outcome : Except Error (List Node) × Contents}
    (houtcome : settle (·.list dir recursive) p = outcome) :
    Answered past now p (.list dir recursive) outcome := by
  have hsorted : (p.walk dir recursive).Pairwise fun a b => utf8Bytes a.key < utf8Bytes b.key := by
    rw [walk_eq_nodes]
    exact (p.ascending_nodes _).imp utf8Bytes_lt
  have hmem : ∀ node, node ∈ p.walk dir recursive ↔ Path.LiesUnder dir node.key recursive ∧
      (present? past now node.key).map (·.toNode node.key) = some node := by
    intro node
    rw [walk_eq_nodes, mem_nodes_iff, h node.key, ← Path.isUnder_iff_liesUnder]
    constructor
    · rintro ⟨e, he, hunder, hnode⟩
      obtain ⟨w, hw, rfl⟩ := Option.map_eq_some_iff.mp he
      exact ⟨hunder, by rw [hw, hnode]; rfl⟩
    · rintro ⟨hunder, hnode⟩
      obtain ⟨w, hw, hwnode⟩ := Option.map_eq_some_iff.mp hnode
      exact ⟨w.entry, by rw [hw]; rfl, hunder, hwnode.symm⟩
  have hlist : settle (·.list dir recursive) p =
      (if p.walk dir recursive = [] then .error (.keyNotFound dir)
        else .ok (p.walk dir recursive), p) := by
    cases hwalk : p.walk dir recursive <;> simp [settle, list, hwalk]
  obtain rfl := hlist.symm.trans houtcome
  refine ⟨⟨rfl, _, hsorted, hmem, rfl⟩, fun key => ?_⟩
  split <;> exact h key

/-- What writing leaves: the written key shows the new write, and what the record says of every
other key still holds of the store. -/
theorem Shows.kept?_put (h : p.Shows past now) (action : Action) (key value : String)
    (ttl : Option Span) (k : String) :
    (p.put now action key value ttl).2.2.kept? k =
      ((if k = key then some ⟨value, p.index + 1, now, ttl⟩ else none).or
        (present? past now k)).map Write.entry := by
  rw [Contents.kept?_put, h k]
  split <;> rfl

theorem Shows.answered_set (h : p.Shows past now) {key value : String} {ttl : Option Span}
    {outcome : Except Error Node × Contents}
    (houtcome : settle (fun c => .ok (c.put now .set key value ttl)) p = outcome) :
    Answered past now p (.set key value ttl) outcome := by
  obtain rfl := houtcome
  exact ⟨⟨rfl, rfl⟩, h.kept?_put .set key value ttl⟩

theorem Shows.answered_addChild (h : p.Shows past now) {dir value : String} {ttl : Span}
    {outcome : Except Error Node × Contents}
    (houtcome :
      settle (fun c => .ok (c.put now .create (c.childKey dir) value (some ttl))) p = outcome) :
    Answered past now p (.addChild dir value ttl) outcome := by
  obtain rfl := houtcome
  exact ⟨⟨rfl, rfl⟩, h.kept?_put .create (p.childKey dir) value (some ttl)⟩

theorem Shows.answered_create (h : p.Shows past now) {key value : String} {ttl : Option Span}
    {outcome : Except Error Node × Contents}
    (houtcome : settle (·.create now key value ttl) p = outcome) :
    Answered past now p (.create key value ttl) outcome := by
  have hcontains : p.entries.contains key = (present? past now key).isSome := by
    rw [KeyMap.contains, show p.entries.get? key = _ from h key, Option.isSome_map]
  by_cases hthere : (present? past now key).isSome = true
  · rw [settle_create, hcontains, if_pos hthere] at houtcome
    obtain rfl := houtcome
    exact ⟨by rw [Answers, if_pos hthere]; exact ⟨rfl, rfl⟩, h⟩
  · rw [settle_create, hcontains, if_neg hthere] at houtcome
    obtain rfl := houtcome
    exact ⟨by rw [Answers, if_neg hthere]; exact ⟨rfl, rfl⟩, h.kept?_put .create key value ttl⟩

theorem Shows.answered_delete (h : p.Shows past now) {key : String} {recursive : Bool}
    {outcome : Except Error Unit × Contents}
    (houtcome : settle (·.delete key recursive) p = outcome) :
    Answered past now p (.delete key recursive) outcome := by
  have hmem : ∀ k, k ∈ (p.entries.filter (doomed key recursive)).keys ↔
      (present? past now k).isSome = true ∧ Path.Covers key k recursive := by
    intro k
    rw [mem_keys_filter_iff, h k]
    simp only [doomed_eq, decide_eq_true_iff, exists_and_right, ← Option.isSome_iff_exists,
      Option.isSome_map]
  by_cases hnil : (p.entries.filter (doomed key recursive)).keys = []
  · simp only [settle, delete_eq, if_pos hnil] at houtcome
    obtain rfl := houtcome
    exact ⟨⟨_, KeyMap.nodup_keys _, hmem, by rw [hnil]; rfl, (if_pos hnil).symm⟩, h⟩
  · simp only [settle, delete_eq, if_neg hnil] at houtcome
    obtain rfl := houtcome
    refine ⟨⟨_, KeyMap.nodup_keys _, hmem, rfl, (if_neg hnil).symm⟩, fun k => ?_⟩
    rw [kept?_remove, h k]
    show _ = Option.map _ (Option.or none (if decide (Path.Covers key k recursive) then _ else _))
    cases hk : decide (Path.Covers key k recursive) <;>
      cases present? past now k <;> simp [doomed_eq, hk]

end Contents

/-! ### All calls -/

namespace Store

/-- The store holds what the record holds. Entries that are over may still be there, since they go
with the next call only. -/
structure Matches (past : List Served) (s : Store) : Prop where
  kept? : ∀ key, s.contents.kept? key = (held? past key).map Write.entry
  index : s.contents.index = lastIndex past
  subscriptions : s.subscriptions.length = past.countP (!·.call.looks)

/-- A call on a store, with its answer, as it goes into the record. -/
def served (s : Store) (now : Moment) (call : StoreCall) : Served :=
  ⟨now, call, (s.perform now call).1, (s.perform now call).2.contents.index⟩

variable {past : List Served} {s : Store} {now : Moment}

/-- What is left when a call has dropped what is over. -/
theorem Matches.shows (h : Matches past s) (hnow : ∀ x ∈ past, x.now ≤ now) :
    (s.contents.purge now).2.Shows past now := by
  intro key
  rw [Contents.purge, Contents.kept?_remove, h.kept?, ← filter_held? hnow]
  cases held? past key with
  | none => rfl
  | some w => cases hw : w.lasts now <;> simp [Option.filter, w.expired_entry, hw]

/-- What a call drops before it does anything is what the record says has lapsed. A call that does
not look at the entries drops nothing, even if something has lapsed. -/
theorem Matches.lapses (h : Matches past s) {call : StoreCall} (hlooks : call.looks = true) :
    Lapses past now call (s.contents.entries.filter fun _ e => e.expired now).keys := by
  refine ⟨KeyMap.nodup_keys _, fun key => ?_⟩
  rw [Contents.mem_keys_filter_iff, h.kept?, and_iff_right hlooks]
  constructor
  · rintro ⟨e, he, hexpired⟩
    obtain ⟨w, hw, rfl⟩ := Option.map_eq_some_iff.mp he
    rw [w.expired_entry, Bool.not_eq_true'] at hexpired
    exact ⟨w, hw, hexpired⟩
  · rintro ⟨w, hw, hover⟩
    exact ⟨w.entry, by rw [hw]; rfl, by rw [w.expired_entry, hover]; rfl⟩

theorem Matches.looking (h : Matches past s) (hnow : ∀ x ∈ past, x.now ≤ now) {call : StoreCall}
    (hlooks : call.looks = true) {effect : Contents → Contents.Effect call.Result}
    (hperform : s.perform now call = s.update now effect)
    (hanswered : ∀ {p : Contents}, p.Shows past now → ∀ {outcome},
      Contents.settle effect p = outcome → Contents.Answered past now p call outcome) :
    (s.served now call).Right past ∧
      Matches (s.served now call :: past) (s.perform now call).2 := by
  obtain ⟨hanswer, hcontents, hlength⟩ := s.update_eq_settle now effect
  have hsettled := hanswered (h.shows hnow) rfl
  rw [served, hperform, hanswer, hcontents]
  refine ⟨⟨_, h.lapses hlooks, ?_⟩, ?_⟩
  · show Answers past now (lastIndex past + _) call _ _
    rw [← h.index]
    exact hsettled.answers
  · refine ⟨fun key => ?_, hcontents ▸ rfl, ?_⟩
    · rw [hcontents, hsettled.kept?, held?, ← filter_held? hnow]
      simp only [hlooks, Bool.not_true, Bool.false_or]
    · rw [hlength, h.subscriptions, List.countP_cons]
      simp [hlooks]

/-- **One call.** It is answered as the record demands, and the store goes on to hold what the
record holds. -/
theorem Matches.perform (h : Matches past s) (hnow : ∀ x ∈ past, x.now ≤ now) (call : StoreCall) :
    (s.served now call).Right past ∧
      Matches (s.served now call :: past) (s.perform now call).2 := by
  cases call with
  | get key => exact h.looking hnow rfl rfl fun hp => hp.answered_get
  | list dir recursive => exact h.looking hnow rfl rfl fun hp => hp.answered_list
  | set key value ttl => exact h.looking hnow rfl rfl fun hp => hp.answered_set
  | create key value ttl => exact h.looking hnow rfl rfl fun hp => hp.answered_create
  | delete key recursive => exact h.looking hnow rfl rfl fun hp => hp.answered_delete
  | addChild dir value ttl => exact h.looking hnow rfl rfl fun hp => hp.answered_addChild
  | watch key recursive =>
    refine ⟨⟨[], ⟨List.nodup_nil, fun k => ?_⟩, ?_, ?_⟩, ?_, ?_, ?_⟩
    · simp [served, StoreCall.looks]
    · exact h.index
    · exact congrArg Except.ok h.subscriptions
    · intro k
      show s.contents.kept? k = Option.map _ ((held? past k).filter fun _ => true)
      rw [h.kept? k]
      cases held? past k <;> rfl
    · rfl
    · rw [List.countP_cons]
      simpa [Store.perform, subscribe, StoreCall.looks, served] using h.subscriptions

/-- Calls that are made one after the other, each with its moment: the record of them, added to an
earlier one, and the store that they leave. -/
def record : List (Moment × StoreCall) → List Served × Store → List Served × Store
  | [], at' => at'
  | (now, call) :: calls, (past, s) =>
    record calls (s.served now call :: past, (s.perform now call).2)

/-- The record of calls on an empty store, the latest first. -/
def answers (calls : List (Moment × StoreCall)) : List Served := (record calls ([], .empty)).1

theorem Matches.record {calls : List (Moment × StoreCall)} (h : Matches past s)
    (hright : AllRight past) (hnow : ∀ x ∈ past, ∀ c ∈ calls, x.now ≤ c.1)
    (hcalls : calls.Pairwise fun a b => a.1 ≤ b.1) : AllRight (record calls (past, s)).1 := by
  induction calls generalizing past s with
  | nil => exact hright
  | cons c calls ih =>
    obtain ⟨hfirst, hrest⟩ := List.pairwise_cons.mp hcalls
    obtain ⟨hserved, hmatches⟩ :=
      h.perform (fun x hx => hnow x hx c (List.mem_cons_self ..)) c.2
    refine ih hmatches ⟨hserved, hright⟩ ?_ hrest
    intro x hx c' hc'
    rcases List.mem_cons.mp hx with rfl | hx
    · exact hfirst c' hc'
    · exact hnow x hx c' (List.mem_cons_of_mem c hc')

/-- **A store answers as its record demands,** whatever it is asked, as long as moments do not go
back. -/
theorem answers_right {calls : List (Moment × StoreCall)}
    (hcalls : calls.Pairwise fun a b => a.1 ≤ b.1) : AllRight (answers calls) := by
  have hempty : Matches [] .empty := ⟨fun _ => rfl, rfl, rfl⟩
  exact hempty.record trivial (by simp) hcalls

/-- A lease of one second, whose holder comes back too late: the key is listed while the lease
lasts, somebody else creates it when the lease is over, and the first holder then fails. -/
def lateHolder : List (Moment × StoreCall) :=
  [(0, .create "/locks/a" "first" (some (Span.ofSeconds 1))),
    (0, .set "/locks/a/holder" "h1" none),
    (999999999, .list "/locks//" true),
    (1000000000, .create "/locks/a" "second" (some (Span.ofSeconds 1))),
    (1500000000, .create "/locks/a" "first" none),
    (2000000000, .delete "/locks" true),
    (2000000000, .get "/locks/a")]

theorem answers_right_lateHolder :
    (lateHolder.Pairwise fun a b => a.1 ≤ b.1) ∧ AllRight (answers lateHolder) ∧
      (answers lateHolder).map (·.index) = [6, 6, 4, 4, 2, 2, 1] :=
  ⟨by decide, answers_right (by decide), by decide +kernel⟩

end Store

end ControlPlane
