import ControlPlane.Proofs.Store.Answering
import ControlPlane.Proofs.Text.Digits
import ControlPlane.Proofs.Text.Pieces
import Mathlib.Data.List.Pairwise

/-!
# Children are appended

A child is named by the index of the change that adds it. The index never goes back, so no name
comes up twice, whatever was deleted or has come to its end in between; and since names have one
width, the order of the names is the order of the indices. Both fail as soon as somebody else writes
a key with such a name: the store reserves no names. Hence the condition on the keys that are set or
created, and hence the bound on the index, which has twenty digits up to the largest number of 64
bits.

The argument is about the record of the calls. What was written under the name of a child was
written by the call that added it, so that looking a child up and looking through the additions
agree.

## Main definitions

* `Path.Numbered`: the keys that have the name of a child
* `Served.added?`, `children`, `childrenAt`: what was added to a directory
* `Store.after`: the store that calls leave

## Main results

* `AllRight.wrote?_childKey`: the name of the next child is new
* `AllRight.mem_children_iff`: what is under the name of a child is the child
* `AllRight.filter_numbered`: the children that a listing shows
* `Store.children_appended`: children get new names and are listed in the order of their additions
-/

namespace ControlPlane

/-! ### Names of children -/

namespace Path

/-- The part of a key behind its last slash. -/
def lastPart (key : String) : List Char := (key.toList.reverse.takeWhile (· != '/')).reverse

/-- The last part of a key has twenty digits and nothing else. -/
def Numbered (key : String) : Prop :=
  (lastPart key).length = 20 ∧ ∀ c ∈ lastPart key, c.isDigit = true

instance (key : String) : Decidable (Numbered key) := inferInstanceAs (Decidable (_ ∧ _))

/-- The key of the child that the change `index` adds. -/
def childKey (dir : String) (index : Nat) : String :=
  String.ofList (dirLead dir ++ paddedText 20 index)

theorem lastPart_eq {key : String} {base name : List Char} (hkey : key.toList = base ++ '/' :: name)
    (hname : '/' ∉ name) : lastPart key = name := by
  have hlast : lastPart key = afterLast '/' key.toList := rfl
  rw [hlast, hkey, afterLast_append base hname]

theorem slash_notMem_paddedText (width n : Nat) : '/' ∉ paddedText width n :=
  fun h => absurd (isDigit_of_mem_paddedText h) (by decide)

variable {dir dir' : String} {i j : Nat}

theorem childKey_congr (h : dirLead dir = dirLead dir') (i : Nat) :
    childKey dir i = childKey dir' i := by
  rw [childKey, childKey, h]

theorem toList_childKey (dir : String) (i : Nat) :
    (childKey dir i).toList = trimEnd '/' dir.toList ++ '/' :: paddedText 20 i := by
  rw [childKey, String.toList_ofList, dirLead, List.append_assoc]
  rfl

theorem lastPart_childKey (dir : String) (i : Nat) :
    lastPart (childKey dir i) = paddedText 20 i :=
  lastPart_eq (toList_childKey dir i) (slash_notMem_paddedText 20 i)

theorem numbered_childKey (dir : String) (hi : i < 10 ^ 20) : Numbered (childKey dir i) := by
  rw [Numbered, lastPart_childKey]
  exact ⟨length_paddedText hi, fun c hc => isDigit_of_mem_paddedText hc⟩

/-- **A name tells the index,** as long as indices have at most twenty digits, which every counter
of 64 bits has. -/
theorem index_eq_of_childKey (hi : i < 10 ^ 20) (hj : j < 10 ^ 20)
    (h : childKey dir i = childKey dir' j) : i = j := by
  have hpart := congrArg lastPart h
  rw [lastPart_childKey, lastPart_childKey] at hpart
  exact (paddedText_inj hi hj).mp hpart

/-- **Names stand in the order of the indices.** Without the padding this would fail, since a text
with a nine comes behind one with a ten. -/
theorem childKey_lt (hdir : dirLead dir = dirLead dir') (h : i < j) (hj : j < 10 ^ 20) :
    childKey dir i < childKey dir' j := by
  change (childKey dir i).toList < (childKey dir' j).toList
  rw [childKey, childKey, String.toList_ofList, String.toList_ofList, hdir]
  exact List.append_left_lt (paddedText_lt h hj)

/-- A child lies in the directory that it was added to, and in no other. -/
theorem liesUnder_childKey_iff :
    LiesUnder dir (childKey dir' i) false ↔ dirLead dir' = dirLead dir := by
  constructor
  · rintro ⟨base, slashes, rest, hdir, hslashes, hbase, hkey, -, hrest⟩
    have hflat : '/' ∉ rest := hrest.resolve_left (by decide)
    have hname : paddedText 20 i = rest :=
      (lastPart_childKey dir' i).symm.trans (lastPart_eq hkey hflat)
    rw [toList_childKey, hname, List.append_left_inj] at hkey
    rw [dirLead, dirLead, hkey, hdir, trimEnd_append hslashes hbase]
  · intro hlead
    obtain ⟨slashes, hslashes, hdir⟩ := exists_eq_trimEnd_append '/' dir.toList
    refine ⟨trimEnd '/' dir.toList, slashes, paddedText 20 i, hdir, hslashes,
      getLast?_trimEnd_ne _ _, ?_, ?_, .inr (slash_notMem_paddedText 20 i)⟩
    · rw [toList_childKey, (List.append_left_inj ['/']).mp hlead]
    · rw [paddedText]
      exact List.append_ne_nil_of_right_ne_nil _ Nat.toDigits_ne_nil

end Path

/-! ### The index -/

/-- The key that a call is to write, if it names one. -/
def StoreCall.named? : StoreCall → Option String
  | set key _ _ => some key
  | create key _ _ => some key
  | _ => none

variable {past : List Served} {s x y : Served} {now : Moment} {dir key : String} {w : Write}
  {node : Node}

/-- The index does not go back, and goes on when something is written. -/
theorem Served.Right.grows (h : s.Right past) :
    lastIndex past ≤ s.index ∧ ∀ key w, s.wrote? key = some w → lastIndex past < s.index := by
  obtain ⟨moment, call, answer, index⟩ := s
  obtain ⟨lapsed, -, hanswers⟩ := h
  cases call with
  | get | list | watch =>
    have hindex := hanswers.1
    exact ⟨by dsimp only at *; omega, fun _ _ hw => by cases hw⟩
  | set | addChild =>
    have hindex := hanswers.1
    exact ⟨by dsimp only at *; omega, fun _ _ _ => by dsimp only at *; omega⟩
  | create key value ttl =>
    rw [Answers] at hanswers
    split at hanswers
    · obtain ⟨rfl, rfl⟩ := hanswers
      exact ⟨Nat.le_add_right .., fun _ _ hw => by cases hw⟩
    · obtain ⟨rfl, -⟩ := hanswers
      exact ⟨by dsimp only; omega, fun _ _ _ => by dsimp only; omega⟩
  | delete key recursive =>
    obtain ⟨gone, -, -, hindex, -⟩ := hanswers
    exact ⟨by dsimp only at *; omega, fun _ _ hw => by cases hw⟩

theorem AllRight.index_le (h : AllRight past) (hx : x ∈ past) : x.index ≤ lastIndex past := by
  induction past with
  | nil => cases hx
  | cons s past ih =>
    rcases List.mem_cons.mp hx with rfl | hx
    · exact Nat.le_refl _
    · exact Nat.le_trans (ih h.2 hx) h.1.grows.1

theorem AllRight.exists_right (h : AllRight past) (hx : x ∈ past) : ∃ earlier, x.Right earlier := by
  induction past with
  | nil => cases hx
  | cons s past ih =>
    rcases List.mem_cons.mp hx with rfl | hx
    · exact ⟨past, h.1⟩
    · exact ih h.2 hx

theorem AllRight.of_suffix {earlier : List Served} (h : AllRight past)
    (hsuffix : earlier <:+ past) : AllRight earlier := by
  obtain ⟨newer, rfl⟩ := hsuffix
  induction newer with
  | nil => exact h
  | cons s newer ih => exact ih h.2

/-- Whatever was written before a write has a smaller index. -/
theorem AllRight.pairwise_lt (h : AllRight past) :
    past.Pairwise fun later earlier => ∀ key w, later.wrote? key = some w →
      earlier.index < later.index := by
  induction past with
  | nil => exact List.Pairwise.nil
  | cons s past ih =>
    refine List.pairwise_cons.mpr ⟨fun x hx key w hw => ?_, ih h.2⟩
    exact Nat.lt_of_le_of_lt (h.2.index_le hx) (h.1.grows.2 key w hw)

/-- If both calls wrote something, they have different indices. -/
def Served.Apart (a b : Served) : Prop :=
  ∀ k k' w w', a.wrote? k = some w → b.wrote? k' = some w' → a.index ≠ b.index

instance : Std.Symm Served.Apart :=
  ⟨fun _ _ h k k' w w' hb ha => (h k' k w' w ha hb).symm⟩

/-- **An index tells the write.** Each write takes an index that is larger than all before it, so
two writes with one index are the same. -/
theorem AllRight.eq_of_index_eq (h : AllRight past) (hx : x ∈ past) (hy : y ∈ past)
    {k k' : String} {w' : Write} (hwx : x.wrote? k = some w) (hwy : y.wrote? k' = some w')
    (hindex : x.index = y.index) : x = y := by
  by_contra hne
  have hapart : past.Pairwise Served.Apart :=
    h.pairwise_lt.imp fun hlt k _ w _ hw _ => Nat.ne_of_gt (hlt k w hw)
  exact hapart.forall hx hy hne k k' w w' hwx hwy hindex

/-! ### Additions in the record -/

/-- The child that a call added to a directory. -/
def Served.added? (s : Served) (dir : String) : Option Node :=
  match s with
  | ⟨_, .addChild d _ _, .ok node, _⟩ =>
    if Path.dirLead d = Path.dirLead dir then some node else none
  | _ => none

/-- All children that were ever added to a directory, in the order in which they were added. -/
def children (past : List Served) (dir : String) : List Node :=
  past.reverse.filterMap (·.added? dir)

/-- Those of them that are there at a moment. -/
def childrenAt (past : List Served) (now : Moment) (dir : String) : List Node :=
  (children past dir).filter fun node => (present? past now node.key).isSome

theorem Served.added?_congr {dir' : String} (h : Path.dirLead dir = Path.dirLead dir')
    (s : Served) : s.added? dir = s.added? dir' := by
  simp only [added?, h]

theorem Served.Right.of_addChild {value : String} {ttl : Span} {index : Nat}
    {answer : Except Error Node} (h : Right past ⟨now, .addChild dir value ttl, answer, index⟩) :
    answer = .ok ⟨Path.childKey dir index, value, index⟩ ∧ lastIndex past < index := by
  obtain ⟨lapsed, -, hindex, hanswer⟩ := h
  exact ⟨hanswer, by dsimp only at hindex; omega⟩

/-- A child was added under the name that its index gives it. -/
theorem Served.Right.of_added? (h : s.Right past) (hadded : s.added? dir = some node) :
    node.key = Path.childKey dir s.index ∧
      ∃ w, s.wrote? node.key = some w ∧ w.toNode node.key = node := by
  obtain ⟨moment, call, answer, index⟩ := s
  cases call with
  | addChild d value ttl =>
    obtain ⟨rfl, -⟩ := h.of_addChild
    change (if Path.dirLead d = Path.dirLead dir then _ else _) = some node at hadded
    split at hadded
    · rename_i hlead
      obtain rfl := Option.some.inj hadded
      exact ⟨Path.childKey_congr hlead index, ⟨value, index, moment, some ttl⟩, if_pos rfl, rfl⟩
    · cases hadded
  | _ => cases hadded

/-- What was written was asked for under this name, or it is a child that was added. -/
theorem Served.Right.named_or_added (h : s.Right past) (hw : s.wrote? key = some w) :
    key ∈ s.call.named? ∨
      ∃ d, key = Path.childKey d s.index ∧ s.added? d = some (w.toNode key) := by
  obtain ⟨moment, call, answer, index⟩ := s
  cases call with
  | addChild d value ttl =>
    obtain ⟨rfl, -⟩ := h.of_addChild
    change (if key = Path.childKey d index then _ else _) = some w at hw
    split at hw
    · rename_i hkey
      obtain rfl := Option.some.inj hw
      exact .inr ⟨d, hkey, hkey ▸ if_pos rfl⟩
    · cases hw
  | set k value ttl | create k value ttl =>
    cases answer with
    | error e => cases hw
    | ok node =>
      rw [wrote?] at hw
      split at hw
      · rename_i heq
        exact .inl (congrArg some heq.symm)
      · cases hw
  | _ => cases hw

theorem exists_wrote?_of_latest? (h : latest? past key = some w) :
    ∃ x ∈ past, x.wrote? key = some w := by
  induction past with
  | nil => cases h
  | cons s past ih =>
    rw [latest?] at h
    cases hw : s.wrote? key with
    | some w' =>
      rw [hw] at h
      exact ⟨s, List.mem_cons_self .., hw.trans h⟩
    | none =>
      rw [hw, Option.none_or] at h
      split at h
      · cases h
      · obtain ⟨x, hx, hwx⟩ := ih h
        exact ⟨x, List.mem_cons_of_mem s hx, hwx⟩

theorem exists_wrote?_of_present? (h : (present? past now key).isSome = true) :
    ∃ w, present? past now key = some w ∧ ∃ x ∈ past, x.wrote? key = some w := by
  obtain ⟨w, hw⟩ := Option.isSome_iff_exists.mp h
  exact ⟨w, hw, exists_wrote?_of_latest? (Option.filter_eq_some_iff.mp hw).1⟩

theorem held?_eq_none_of_wrote? (h : ∀ x ∈ past, x.wrote? key = none) : held? past key = none := by
  induction past with
  | nil => rfl
  | cons s past ih =>
    rw [held?, h s (List.mem_cons_self ..), ih fun x hx => h x (List.mem_cons_of_mem s hx)]
    split <;> rfl

section

variable (h : AllRight past) (hnamed : ∀ x ∈ past, ∀ k ∈ x.call.named?, ¬ Path.Numbered k)
include h hnamed

/-- **The name of the next child is new,** since it tells an index that no write has had so far. -/
theorem AllRight.wrote?_childKey (dir : String) {next : Nat} (hnext : lastIndex past < next)
    (hbound : next < 10 ^ 20) : ∀ x ∈ past, x.wrote? (Path.childKey dir next) = none := by
  intro x hx
  by_contra hwrote
  obtain ⟨w, hw⟩ := Option.ne_none_iff_exists'.mp hwrote
  obtain ⟨earlier, hright⟩ := h.exists_right hx
  obtain ⟨d, hkey, -⟩ := (hright.named_or_added hw).resolve_left fun hask =>
    hnamed x hx _ hask (Path.numbered_childKey dir hbound)
  have hle := h.index_le hx
  have heq := Path.index_eq_of_childKey hbound (by omega) hkey
  omega

variable (hindex : lastIndex past < 10 ^ 20)
include hindex

/-- **What is present under the name of a child is the child.** -/
theorem AllRight.mem_children_iff (hkey : Path.Numbered node.key)
    (hpresent : (present? past now node.key).isSome = true) :
    node ∈ children past dir ↔ Path.LiesUnder dir node.key false ∧
      (present? past now node.key).map (·.toNode node.key) = some node := by
  have hbound : ∀ {x}, x ∈ past → x.index < 10 ^ 20 :=
    fun hx => Nat.lt_of_le_of_lt (h.index_le hx) hindex
  obtain ⟨w, hw, x, hx, hwrote⟩ := exists_wrote?_of_present? hpresent
  obtain ⟨earlier, hright⟩ := h.exists_right hx
  obtain ⟨d, hname, hadded⟩ := (hright.named_or_added hwrote).resolve_left fun hask =>
    hnamed x hx _ hask hkey
  rw [hw, Option.map_some, Option.some_inj, children, List.mem_filterMap]
  constructor
  · rintro ⟨y, hy, hnode⟩
    obtain ⟨earlier', hright'⟩ := h.exists_right (List.mem_reverse.mp hy)
    obtain ⟨hname', w', hwrote', hvalue⟩ := hright'.of_added? hnode
    have heq : y = x := h.eq_of_index_eq (List.mem_reverse.mp hy) hx hwrote' hwrote
      (Path.index_eq_of_childKey (hbound (List.mem_reverse.mp hy)) (hbound hx)
        (hname'.symm.trans hname))
    rw [heq, hwrote, Option.some_inj] at hwrote'
    rw [hwrote']
    exact ⟨hname' ▸ Path.liesUnder_childKey_iff.mpr rfl, hvalue⟩
  · rintro ⟨hunder, hvalue⟩
    rw [hname, Path.liesUnder_childKey_iff] at hunder
    refine ⟨x, List.mem_reverse.mpr hx, ?_⟩
    rw [← Served.added?_congr hunder, hadded, hvalue]

omit hnamed in
/-- Whatever is present was asked for by its name or has the name of a child. -/
theorem AllRight.named_or_numbered (hpresent : (present? past now key).isSome = true) :
    (∃ x ∈ past, key ∈ x.call.named?) ∨ Path.Numbered key := by
  obtain ⟨w, -, x, hx, hwrote⟩ := exists_wrote?_of_present? hpresent
  obtain ⟨earlier, hright⟩ := h.exists_right hx
  rcases hright.named_or_added hwrote with hask | ⟨d, hname, -⟩
  · exact .inl ⟨x, hx, hask⟩
  · rw [hname]
    exact .inr (Path.numbered_childKey d (Nat.lt_of_le_of_lt (h.index_le hx) hindex))

omit hnamed in
/-- Children were added in the order of their names. -/
theorem AllRight.ascending_children (dir : String) :
    (children past dir).Pairwise fun a b => utf8Bytes a.key < utf8Bytes b.key := by
  refine List.pairwise_filterMap.mpr (List.pairwise_reverse.mpr ?_)
  refine h.pairwise_lt.imp_of_mem fun {later earlier} hlater hearlier hlt old hold new hnew => ?_
  obtain ⟨past', hright⟩ := h.exists_right hlater
  obtain ⟨past'', hright'⟩ := h.exists_right hearlier
  obtain ⟨hname, w, hwrote, -⟩ := hright.of_added? hnew
  rw [hname, (hright'.of_added? hold).1]
  exact utf8Bytes_lt (Path.childKey_lt rfl (hlt new.key w hwrote)
    (Nat.lt_of_le_of_lt (h.index_le hlater) hindex))

/-- **What a listing shows under the names of children** are the children that are present, in the
order in which they were added. -/
theorem AllRight.filter_numbered {nodes : List Node}
    (hsorted : nodes.Pairwise fun a b => utf8Bytes a.key < utf8Bytes b.key)
    (hmem : ∀ node, node ∈ nodes ↔ Path.LiesUnder dir node.key false ∧
      (present? past now node.key).map (·.toNode node.key) = some node) :
    (nodes.filter fun node => Path.Numbered node.key) = childrenAt past now dir := by
  have hirrefl : Std.Irrefl fun a b : Node => utf8Bytes a.key < utf8Bytes b.key :=
    ⟨fun a => List.lt_irrefl _⟩
  have hantisymm : Std.Antisymm fun a b : Node => utf8Bytes a.key < utf8Bytes b.key :=
    ⟨fun a b hab hba => absurd hba (List.lt_asymm hab)⟩
  refine List.Pairwise.eq_of_mem_iff (hsorted.filter _)
    ((h.ascending_children hindex dir).filter _) fun node => ?_
  rw [childrenAt, List.mem_filter, List.mem_filter, decide_eq_true_iff, hmem]
  constructor
  · rintro ⟨hlisted, hnumbered⟩
    have hpresent : (present? past now node.key).isSome = true := by
      rw [← Option.isSome_map, hlisted.2]
      rfl
    exact ⟨(h.mem_children_iff hnamed hindex hnumbered hpresent).mpr hlisted, hpresent⟩
  · rintro ⟨hchild, hpresent⟩
    obtain ⟨x, hx, hadded⟩ := List.mem_filterMap.mp hchild
    obtain ⟨past', hright⟩ := h.exists_right (List.mem_reverse.mp hx)
    have hnumbered : Path.Numbered node.key := by
      rw [(hright.of_added? hadded).1]
      exact Path.numbered_childKey dir
        (Nat.lt_of_le_of_lt (h.index_le (List.mem_reverse.mp hx)) hindex)
    exact ⟨(h.mem_children_iff hnamed hindex hnumbered hpresent).mp hchild, hnumbered⟩

end

/-! ### Additions to a store -/

namespace Store

/-- The store that calls on an empty store leave. -/
def after (calls : List (Moment × StoreCall)) : Store := (record calls ([], .empty)).2

theorem record_append (calls calls' : List (Moment × StoreCall)) (x : List Served × Store) :
    record (calls ++ calls') x = record calls' (record calls x) := by
  induction calls generalizing x with
  | nil => rfl
  | cons c calls ih => exact ih _

theorem map_record (calls : List (Moment × StoreCall)) (x : List Served × Store) :
    (record calls x).1.map (fun s => (s.now, s.call)) =
      calls.reverse ++ x.1.map fun s => (s.now, s.call) := by
  induction calls generalizing x with
  | nil => rfl
  | cons c calls ih =>
    refine (ih _).trans ?_
    rw [List.reverse_cons, List.append_assoc]
    rfl

theorem suffix_record (calls : List (Moment × StoreCall)) (x : List Served × Store) :
    x.1 <:+ (record calls x).1 := by
  induction calls generalizing x with
  | nil => exact List.suffix_refl _
  | cons c calls ih => exact (List.suffix_cons _ x.1).trans (ih (_ :: x.1, _))

variable {calls before later : List (Moment × StoreCall)} {c : Moment × StoreCall}

theorem mem_of_mem_answers (h : x ∈ answers calls) : (x.now, x.call) ∈ calls := by
  have hmem := List.mem_map_of_mem (f := fun s : Served => (s.now, s.call)) h
  rw [answers, map_record, List.map_nil, List.append_nil, List.mem_reverse] at hmem
  exact hmem

/-- Whatever is asked, the store holds what its record holds. -/
theorem matches_after (h : calls.Pairwise fun a b => a.1 ≤ b.1) :
    AllRight (answers calls) ∧ Matches (answers calls) (after calls) := by
  induction calls using List.reverseRecOn with
  | nil => exact ⟨trivial, fun _ => rfl, rfl, rfl⟩
  | append_singleton calls c ih =>
    obtain ⟨hbefore, -, hlast⟩ := List.pairwise_append.mp h
    obtain ⟨hright, hmatches⟩ := ih hbefore
    have hnow : ∀ x ∈ answers calls, x.now ≤ c.1 := fun x hx =>
      hlast _ (mem_of_mem_answers hx) c (List.mem_singleton_self c)
    obtain ⟨hserved, hkeeps⟩ := hmatches.perform hnow c.2
    rw [answers, after, record_append]
    exact ⟨⟨hserved, hright⟩, hkeeps⟩

/-- One of many calls is answered by what the calls before it have left. -/
theorem right_of_eq_append (h : calls.Pairwise fun a b => a.1 ≤ b.1) {call : StoreCall}
    (hcalls : calls = before ++ (now, call) :: later) :
    AllRight (answers before) ∧ Matches (answers before) (after before) ∧
      ∃ index ≤ (after calls).contents.index,
        Served.Right (answers before) ⟨now, call, ((after before).perform now call).1, index⟩ := by
  have hsuffix : (after before).served now call :: answers before <:+ answers calls := by
    rw [hcalls, answers, answers, record_append]
    exact suffix_record later (_ :: _, _)
  obtain ⟨hright, hmatches⟩ := matches_after h
  rw [hcalls] at h
  obtain ⟨hserved, hbefore⟩ := hright.of_suffix hsuffix
  refine ⟨hbefore, (matches_after (List.pairwise_append.mp h).1).2, _, ?_, hserved⟩
  rw [hmatches.index]
  exact hright.index_le (hsuffix.subset (List.mem_cons_self ..))

/-- **Children get new names and are listed in the order in which they were added,** whatever else
happens to the store, as long as nobody else asks for a name of twenty digits. -/
theorem children_appended (hclock : calls.Pairwise fun a b => a.1 ≤ b.1)
    (hnamed : ∀ c ∈ calls, ∀ key ∈ c.2.named?, ¬ Path.Numbered key)
    (hindex : (after calls).contents.index < UInt64.size) :
    (∀ before later now dir value ttl, calls = before ++ (now, .addChild dir value ttl) :: later →
      ∃ node : Node, ((after before).perform now (.addChild dir value ttl)).1 = .ok node ∧
        Path.LiesUnder dir node.key false ∧ (∀ x ∈ answers before, x.wrote? node.key = none) ∧
        (after before).contents.kept? node.key = none) ∧
    ∀ before later now dir, calls = before ++ (now, .list dir false) :: later →
      ∃ nodes : List Node, ((after before).perform now (.list dir false)).1 =
          (if nodes = [] then .error (.keyNotFound dir) else .ok nodes) ∧
        (nodes.filter fun node => Path.Numbered node.key) =
          childrenAt (answers before) now dir ∧
        ((∀ c ∈ before, ∀ key ∈ c.2.named?, ¬ Path.LiesUnder dir key false) →
          nodes = childrenAt (answers before) now dir) := by
  have hnames : ∀ {before c later}, calls = before ++ c :: later →
      ∀ x ∈ answers before, ∀ key ∈ x.call.named?, ¬ Path.Numbered key := by
    rintro before c later rfl x hx
    exact hnamed _ (List.mem_append_left _ (mem_of_mem_answers hx))
  have hsize : UInt64.size ≤ 10 ^ 20 := by decide
  constructor
  · intro before later now dir value ttl hcalls
    obtain ⟨hbefore, hmatches, index, hle, hserved⟩ := right_of_eq_append hclock hcalls
    obtain ⟨hanswer, hlt⟩ := hserved.of_addChild
    have hnew := hbefore.wrote?_childKey (hnames hcalls) dir hlt (by omega)
    refine ⟨_, hanswer, Path.liesUnder_childKey_iff.mpr rfl, hnew, ?_⟩
    rw [hmatches.kept?, held?_eq_none_of_wrote? hnew]
    rfl
  · intro before later now dir hcalls
    obtain ⟨hbefore, hmatches, index, hle, hserved⟩ := right_of_eq_append hclock hcalls
    have hbound : lastIndex (answers before) < 10 ^ 20 :=
      Nat.lt_of_le_of_lt (Nat.le_trans hserved.grows.1 hle) (by omega)
    obtain ⟨lapsed, hlapsed, hnext, nodes, hsorted, hmem, hanswer⟩ := hserved
    have hchildren := hbefore.filter_numbered (hnames hcalls) hbound hsorted hmem
    refine ⟨nodes, hanswer, hchildren, fun hothers => ?_⟩
    rw [← hchildren, eq_comm, List.filter_eq_self]
    intro node hnode
    obtain ⟨hunder, hvalue⟩ := (hmem node).mp hnode
    have hpresent : (present? (answers before) now node.key).isSome = true := by
      rw [← Option.isSome_map, hvalue]
      rfl
    rcases hbefore.named_or_numbered hbound hpresent with
      ⟨x, hx, hask⟩ | hnumbered
    · exact absurd hunder (hothers _ (mem_of_mem_answers hx) _ hask)
    · exact decide_eq_true hnumbered

/-- Events of a container: the first is over and the second was deleted when the last is added. -/
def visits : List (Moment × StoreCall) :=
  [(0, .addChild "/events/c" "created" (Span.ofSeconds 1)),
    (0, .addChild "/events/c/" "started" (Span.ofSeconds 9)),
    (0, .addChild "/events/c" "paused" (Span.ofSeconds 9)),
    (0, .set "/events/c/seen" "3" none),
    (1, .delete "/events/c/00000000000000000002" false),
    (2000000000, .addChild "/events/c" "stopped" (Span.ofSeconds 9)),
    (2000000000, .list "/events/c//" false)]

theorem children_appended_visits :
    (visits.Pairwise fun a b => a.1 ≤ b.1) ∧
      (∀ c ∈ visits, ∀ key ∈ c.2.named?, ¬ Path.Numbered key) ∧
      (after visits).contents.index < UInt64.size ∧
      ∃ nodes : List Node, ((after (visits.take 6)).perform 2000000000
          (.list "/events/c//" false)).1 =
            (if nodes = [] then .error (.keyNotFound "/events/c//") else .ok nodes) ∧
        (nodes.filter fun node => Path.Numbered node.key).map Node.value =
          ["paused", "stopped"] := by
  have hclock : visits.Pairwise fun a b => a.1 ≤ b.1 := by decide
  have hnamed : ∀ c ∈ visits, ∀ key ∈ c.2.named?, ¬ Path.Numbered key := by decide +kernel
  have hindex : (after visits).contents.index < UInt64.size := by decide +kernel
  obtain ⟨nodes, hanswer, hchildren, -⟩ :=
    (children_appended hclock hnamed hindex).2 (visits.take 6) [] _ _ rfl
  refine ⟨hclock, hnamed, hindex, nodes, hanswer, ?_⟩
  rw [hchildren]
  decide +kernel

end Store

end ControlPlane
