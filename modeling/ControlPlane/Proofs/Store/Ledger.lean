import ControlPlane.Proofs.Store.Entries
import ControlPlane.Proofs.Text.Pieces

/-!
# A store is a map whose values have an end

A store keeps a value after its time to live is over and drops it with the next call, whichever that
is. Nobody can tell: the answers are those of a plain record of everything that was asked, in which
a key is there as long as its latest write has neither been deleted nor come to its end.

The record is a list of the calls with their answers, the latest first. It says what is under a key
by looking back for the latest write, and it never forgets anything. How the entries are kept, in
which order they are walked along and when they are dropped does not enter.

Only the index shows that entries are dropped late, because dropping an entry is a change of its
own. `held?` therefore looks back once more and says which values are over without any call having
found out; the calls that look count them.

## Main definitions

* `Served`: a call with its answer
* `present?`: what is under a key at a moment, by the record
* `Answers`: the answer that the record calls for
* `Served.Right`, `AllRight`: a call that was answered so, and a record of such calls

## Main results

* `Served.Right.of_error`: calls that fail
* `Served.Right.unique`: the record leaves one answer only
-/

namespace ControlPlane

/-! ### The record -/

/-- A call that was answered. Records of a store consist of these and nothing else. -/
structure Served where
  now : Moment
  call : StoreCall
  answer : Except Error call.Result
  /-- The index of the last change after the call. -/
  index : Nat

/-- What was written under a key, by which call and with which index. -/
structure Write where
  value : String
  index : Nat
  /-- The moment at which it was written. -/
  made : Moment
  ttl : Option Span

namespace Write

/-- Whether the time to live is not over. A write without one lasts until it is replaced or removed.
-/
def lasts (w : Write) (now : Moment) : Bool :=
  match w.ttl with
  | some ttl => now < w.made + ttl.toNanos
  | none => true

/-- The node that is read. -/
def toNode (key : String) (w : Write) : Node := ⟨key, w.value, w.index⟩

theorem lasts_of_le {w : Write} {now later : Moment} (h : now ≤ later)
    (hw : w.lasts later = true) : w.lasts now = true := by
  obtain ⟨value, index, made, ttl⟩ := w
  cases ttl with
  | none => rfl
  | some ttl =>
    simp only [lasts, decide_eq_true_eq] at *
    exact Nat.lt_of_le_of_lt h hw

end Write

/-- `key` lies strictly under `dir`: after the name of the directory, without the slashes at its
end, come a slash and a name, which has further parts only if `recursive`. -/
def Path.LiesUnder (dir key : String) (recursive : Bool) : Prop :=
  ∃ base slashes rest : List Char,
    dir.toList = base ++ slashes ∧ (∀ c ∈ slashes, c = '/') ∧ base.getLast? ≠ some '/' ∧
      key.toList = base ++ '/' :: rest ∧ rest ≠ [] ∧ (recursive = true ∨ '/' ∉ rest)

theorem Path.isUnder_iff_liesUnder {dir key : String} {recursive : Bool} :
    isUnder dir key recursive = true ↔ LiesUnder dir key recursive := by
  have hrest : ∀ rest : List Char,
      (!rest.isEmpty && (recursive || !rest.contains '/')) = true ↔
        rest ≠ [] ∧ (recursive = true ∨ '/' ∉ rest) := by
    intro rest
    simp
  rw [isUnder, isChild]
  constructor
  · intro h
    split at h
    · rename_i rest hlead
      obtain ⟨slashes, hslashes, hdir⟩ := exists_eq_trimEnd_append '/' dir.toList
      have hkey := afterLead?_eq_some_iff.mp hlead
      rw [dirLead, List.append_assoc] at hkey
      exact ⟨trimEnd '/' dir.toList, slashes, rest, hdir, hslashes, getLast?_trimEnd_ne _ _,
        hkey, (hrest rest).mp h⟩
    · cases h
  · rintro ⟨base, slashes, rest, hdir, hslashes, hbase, hkey, hunder⟩
    have hlead : dirLead dir = base ++ ['/'] := by
      rw [dirLead, hdir, trimEnd_append hslashes hbase]
    have hafter : afterLead? (dirLead dir) key.toList = some rest := by
      rw [afterLead?_eq_some_iff, hlead, hkey, List.append_assoc]
      rfl
    rw [hafter]
    exact (hrest rest).mpr hunder

instance (dir key : String) (recursive : Bool) : Decidable (Path.LiesUnder dir key recursive) :=
  decidable_of_iff _ Path.isUnder_iff_liesUnder

/-- Whether a call looks at the entries, and so drops those that are over. -/
def StoreCall.looks : StoreCall → Bool
  | watch .. => false
  | _ => true

/-- What deleting a key removes, whether or not the key itself is there. -/
def Path.Covers (key k : String) (recursive : Bool) : Prop :=
  k = key ∨ recursive = true ∧ LiesUnder key k true

instance (key k : String) (recursive : Bool) : Decidable (Path.Covers key k recursive) :=
  inferInstanceAs (Decidable (_ ∨ _))

theorem Contents.doomed_eq (key : String) (recursive : Bool) (k : String) (e : Entry) :
    doomed key recursive k e = decide (Path.Covers key k recursive) := by
  rw [doomed, Bool.eq_iff_iff, decide_eq_true_iff, Path.Covers, ← Path.isUnder_iff_liesUnder]
  simp

/-- Deleting a key removes what it covers and lets all else be. -/
theorem Contents.kept?_of_delete {c d : Contents} {key : String} {recursive : Bool}
    {changes : List Change} (h : c.delete key recursive = .ok ((), changes, d)) (k : String) :
    d.kept? k = if Path.Covers key k recursive then none else c.kept? k := by
  rw [delete_eq] at h
  split at h
  · cases h
  · have hd : (c.remove .delete (doomed key recursive)).2 = d := congrArg (·.2.2) (Except.ok.inj h)
    rw [← hd, kept?_remove]
    simp only [doomed_eq]
    by_cases hk : Path.Covers key k recursive <;> cases c.kept? k <;> simp [hk]

namespace Served

/-- What the call wrote under a key. A call that failed wrote nothing. -/
def wrote? (s : Served) (key : String) : Option Write :=
  match s with
  | ⟨now, .set k value ttl, .ok _, index⟩ => if key = k then some ⟨value, index, now, ttl⟩ else none
  | ⟨now, .create k value ttl, .ok _, index⟩ =>
    if key = k then some ⟨value, index, now, ttl⟩ else none
  | ⟨now, .addChild _ value ttl, .ok node, index⟩ =>
    if key = Node.key node then some ⟨value, index, now, some ttl⟩ else none
  | _ => none

/-- Whether the call deleted a key. A call that failed deleted nothing. -/
def deleted (s : Served) (key : String) : Bool :=
  match s with
  | ⟨_, .delete k recursive, .ok _, _⟩ => decide (Path.Covers k key recursive)
  | _ => false

end Served

/-- The latest write of a key, unless the key was deleted after it. -/
def latest? : List Served → String → Option Write
  | [], _ => none
  | s :: past, key => (s.wrote? key).or (if s.deleted key then none else latest? past key)

/-- **What is under a key at a moment:** its latest write, unless the key was deleted after it or
the time to live is over. -/
def present? (past : List Served) (now : Moment) (key : String) : Option Write :=
  (latest? past key).filter (·.lasts now)

/-- The latest write of a key, unless the key was deleted after it or a call has found that its time
to live was over. -/
def held? : List Served → String → Option Write
  | [], _ => none
  | s :: past, key => (s.wrote? key).or <| if s.deleted key then none else
      (held? past key).filter fun w => !s.call.looks || w.lasts s.now

/-- `keys` are those of which a call finds out that their time is over. -/
def Lapses (past : List Served) (now : Moment) (call : StoreCall) (keys : List String) : Prop :=
  keys.Nodup ∧ ∀ key, key ∈ keys ↔
    call.looks = true ∧ ∃ w, held? past key = some w ∧ w.lasts now = false

/-- The index of the last change that the record knows of. -/
def lastIndex : List Served → Nat
  | [] => 0
  | s :: _ => s.index

/-- The answer to a call at the moment `now`, with the index of the last change before it, and that
of the last change after it. -/
def Answers (past : List Served) (now : Moment) (index : Nat) :
    (call : StoreCall) → Except Error call.Result → Nat → Prop
  | .get key, answer, next => next = index ∧
    answer = match present? past now key with
      | some w => .ok (w.toNode key)
      | none => .error (.keyNotFound key)
  | .list dir recursive, answer, next => next = index ∧ ∃ nodes : List Node,
    (nodes.Pairwise fun a b => utf8Bytes a.key < utf8Bytes b.key) ∧
    (∀ node, node ∈ nodes ↔ Path.LiesUnder dir node.key recursive ∧
      (present? past now node.key).map (·.toNode node.key) = some node) ∧
    answer = if nodes = [] then .error (.keyNotFound dir) else .ok nodes
  | .set key value _, answer, next => next = index + 1 ∧ answer = .ok (Node.mk key value next)
  | .create key value _, answer, next =>
    if (present? past now key).isSome = true then next = index ∧ answer = .error (.keyExists key)
    else next = index + 1 ∧ answer = .ok (Node.mk key value next)
  | .delete key recursive, answer, next => ∃ gone : List String, gone.Nodup ∧
    (∀ k, k ∈ gone ↔ (present? past now k).isSome = true ∧ Path.Covers key k recursive) ∧
    next = index + gone.length ∧
    answer = if gone = [] then .error (.keyNotFound key) else .ok ()
  | .addChild dir value _, answer, next => next = index + 1 ∧
    answer = .ok (Node.mk (String.ofList (Path.dirLead dir ++ paddedText 20 next)) value next)
  | .watch .., answer, next => next = index ∧ answer = .ok (past.countP (!·.call.looks))

/-- **A call was answered as the record before it demands.** The entries whose end it finds are
changes before its own, and a call that fails makes no other. -/
def Served.Right (past : List Served) (s : Served) : Prop :=
  ∃ lapsed, Lapses past s.now s.call lapsed ∧
    Answers past s.now (lastIndex past + lapsed.length) s.call s.answer s.index

/-- Every call was answered as the record before it demands. -/
def AllRight : List Served → Prop
  | [] => True
  | s :: past => s.Right past ∧ AllRight past

/-! ### The record decides -/

section

variable {past : List Served} {now : Moment} {index next next' : Nat} {call : StoreCall}

theorem Lapses.length_eq {keys keys' : List String} (h : Lapses past now call keys)
    (h' : Lapses past now call keys') : keys.length = keys'.length := by
  refine List.Perm.length_eq ((List.perm_ext_iff_of_nodup h.1 h'.1).mpr fun key => ?_)
  rw [h.2, h'.2]

/-- **There is one answer only,** and one index. What is said of an answer settles it, so it could
not be said of a wrong one as well. -/
theorem Answers.unique {answer answer' : Except Error call.Result}
    (h : Answers past now index call answer next)
    (h' : Answers past now index call answer' next') : answer = answer' ∧ next = next' := by
  cases call with
  | get | set | addChild | watch =>
    obtain ⟨rfl, rfl⟩ := h
    obtain ⟨rfl, rfl⟩ := h'
    exact ⟨rfl, rfl⟩
  | list dir recursive =>
    obtain ⟨rfl, nodes, hsorted, hmem, rfl⟩ := h
    obtain ⟨rfl, nodes', hsorted', hmem', rfl⟩ := h'
    have hirrefl : Std.Irrefl fun a b : Node => utf8Bytes a.key < utf8Bytes b.key :=
      ⟨fun a => List.lt_irrefl _⟩
    have hantisymm : Std.Antisymm fun a b : Node => utf8Bytes a.key < utf8Bytes b.key :=
      ⟨fun a b hab hba => absurd hba (List.lt_asymm hab)⟩
    obtain rfl : nodes = nodes' := by
      refine List.Pairwise.eq_of_mem_iff hsorted hsorted' fun node => ?_
      rw [hmem, hmem']
    exact ⟨rfl, rfl⟩
  | create key value ttl =>
    rw [Answers] at h h'
    by_cases hthere : (present? past now key).isSome = true
    · rw [if_pos hthere] at h h'
      obtain ⟨rfl, rfl⟩ := h
      exact ⟨h'.2.symm, h'.1.symm⟩
    · rw [if_neg hthere] at h h'
      obtain ⟨rfl, rfl⟩ := h
      obtain ⟨rfl, rfl⟩ := h'
      exact ⟨rfl, rfl⟩
  | delete key recursive =>
    obtain ⟨gone, hnodup, hmem, rfl, rfl⟩ := h
    obtain ⟨gone', hnodup', hmem', rfl, rfl⟩ := h'
    have hperm : gone.Perm gone' := by
      refine (List.perm_ext_iff_of_nodup hnodup hnodup').mpr fun k => ?_
      rw [hmem, hmem']
    have hnil : gone = [] ↔ gone' = [] := by
      rw [← List.length_eq_zero_iff, hperm.length_eq, List.length_eq_zero_iff]
    simp only [hnil, hperm.length_eq, and_self]

/-- **A call that fails changes nothing that is present,** and only the entries whose end it finds
are counted by the index. -/
theorem Served.Right.of_error {s : Served} {e : Error} (h : s.Right past)
    (he : s.answer = .error e) :
    (∀ moment key, present? (s :: past) moment key = present? past moment key) ∧
      ∃ lapsed, Lapses past s.now s.call lapsed ∧ s.index = lastIndex past + lapsed.length := by
  obtain ⟨lapsed, hlapsed, hanswers⟩ := h
  obtain ⟨moment, call, answer, index⟩ := s
  obtain rfl : answer = .error e := he
  constructor
  · intro moment key
    cases call <;> rfl
  · refine ⟨lapsed, hlapsed, ?_⟩
    cases call with
    | get | list | watch => exact hanswers.1
    | set | addChild => exact absurd hanswers.2 (by simp)
    | create key value ttl =>
      rw [Answers] at hanswers
      split at hanswers
      · exact hanswers.1
      · exact absurd hanswers.2 (by simp)
    | delete key recursive =>
      obtain ⟨gone, -, -, hindex, hanswer⟩ := hanswers
      split at hanswer
      · rename_i hnil
        rw [hindex, hnil]
        rfl
      · cases hanswer

/-- **The record leaves one answer only.** An entry of the record is right for one answer at most,
whatever the calls before it were. -/
theorem Served.Right.unique {answer answer' : Except Error call.Result}
    (h : Served.Right past ⟨now, call, answer, next⟩)
    (h' : Served.Right past ⟨now, call, answer', next'⟩) : answer = answer' ∧ next = next' := by
  obtain ⟨lapsed, hlapsed, hanswers⟩ := h
  obtain ⟨lapsed', hlapsed', hanswers'⟩ := h'
  rw [hlapsed'.length_eq hlapsed] at hanswers'
  exact hanswers.unique hanswers'

end

end ControlPlane
