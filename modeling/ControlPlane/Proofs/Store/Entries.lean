import ControlPlane.Proofs.KeyMap
import ControlPlane.Proofs.Text.Order
import ControlPlane.Store.Basic

/-!
# What calls do to the entries

The entries of a store as a map: what is kept under each key after entries were removed or written,
and which nodes a directory has. Listing a directory walks along the keys and stops at the first one
that begins otherwise. Since the keys that begin alike stand together, nothing under the directory
is missed.

## Main definitions

* `Contents.kept?`: the entry of a key
* `Contents.nodes`: the nodes of chosen keys

## Main results

* `Contents.walk_eq_nodes`: a walk finds all that lies under a directory
* `Contents.kept?_remove`, `Contents.kept?_put`
-/

namespace ControlPlane.Contents

/-- The entry of a key, whether or not its time is over. -/
def kept? (c : Contents) (key : String) : Option Entry := c.entries.get? key

/-- The nodes whose keys satisfy `keep`, in ascending order of the keys. -/
def nodes (s : Contents) (keep : String → Bool) : List Node :=
  (s.entries.filterKeys keep).entries.map fun entry => entry.2.toNode entry.1

variable {c : Contents}

/-! ### Listing -/

theorem mem_nodes_iff {keep : String → Bool} {node : Node} :
    node ∈ c.nodes keep ↔ ∃ e, c.kept? node.key = some e ∧ keep node.key = true ∧
      node = e.toNode node.key := by
  rw [nodes, List.mem_map]
  constructor
  · rintro ⟨⟨key, e⟩, hmem, rfl⟩
    obtain ⟨hentry, hkeep⟩ := List.mem_filter.mp hmem
    exact ⟨e, KeyMap.get?_eq_some_iff.mpr hentry, hkeep, rfl⟩
  · rintro ⟨e, hentry, hkeep, hnode⟩
    exact ⟨(node.key, e), List.mem_filter.mpr ⟨KeyMap.get?_eq_some_iff.mp hentry, hkeep⟩,
      hnode.symm⟩

/-- Nodes are listed by ascending keys, which is the order the entries are kept in. -/
theorem ascending_nodes (c : Contents) (keep : String → Bool) :
    (c.nodes keep).Pairwise fun a b => a.key < b.key :=
  List.pairwise_map.mpr (c.entries.filterKeys keep).ascending

theorem pairwise_nodes (c : Contents) (keep : String → Bool) :
    (c.nodes keep).Pairwise fun a b => a.key ≠ b.key := by
  refine (c.ascending_nodes keep).imp ?_
  intro a b hlt heq
  rw [heq] at hlt
  exact String.lt_irrefl _ hlt

/-- Nodes in this order are determined by which there are. -/
theorem eq_nodes {keep : String → Bool} {l : List Node} (h : l.Pairwise fun a b => a.key < b.key)
    (hmem : ∀ node, node ∈ l ↔ node ∈ c.nodes keep) : l = c.nodes keep := by
  have : Std.Irrefl fun a b : Node => a.key < b.key := ⟨fun a => String.lt_irrefl a.key⟩
  have : Std.Antisymm fun a b : Node => a.key < b.key :=
    ⟨fun a b hab hba => absurd hba (String.lt_asymm hab)⟩
  exact List.Pairwise.eq_of_mem_iff h (c.ascending_nodes keep) hmem

theorem nodes_single (c : Contents) (key : String) :
    (c.nodes fun k => k == key) = ((c.kept? key).map (Entry.toNode key)).toList := by
  refine (eq_nodes ?_ fun node => ?_).symm
  · cases c.kept? key with
    | none => exact List.Pairwise.nil
    | some e => exact List.pairwise_singleton ..
  · rw [mem_nodes_iff, Option.mem_toList, Option.map_eq_some_iff]
    constructor
    · rintro ⟨e, he, rfl⟩
      exact ⟨e, he, beq_self_eq_true key, rfl⟩
    · rintro ⟨e, he, hkey, hnode⟩
      rw [beq_iff_eq.mp hkey] at he hnode
      exact ⟨e, he, hnode.symm⟩

section

variable {lead : List Char} {entries : List (String × Entry)}

/-- From the first key that is not below `lead` on, the keys that begin with it come first. -/
theorem takeWhile_begins (h : KeyMap.Ascending entries)
    (hge : ∀ entry ∈ entries, ¬ entry.1 < String.ofList lead) :
    (entries.takeWhile fun entry => Path.begins lead entry.1) =
      entries.filter fun entry => Path.begins lead entry.1 := by
  induction entries with
  | nil => rfl
  | cons entry entries ih =>
    obtain ⟨hhead, hrest⟩ := List.pairwise_cons.mp h
    by_cases hbegins : Path.begins lead entry.1 = true
    · rw [List.takeWhile_cons, List.filter_cons, if_pos hbegins, if_pos hbegins,
        ih hrest fun e he => hge e (List.mem_cons_of_mem entry he)]
    · rw [List.takeWhile_cons, if_neg hbegins, List.filter_cons, if_neg hbegins, eq_comm,
        List.filter_eq_nil_iff]
      intro e he hlater
      obtain ⟨rest, hrest⟩ := Option.isSome_iff_exists.mp hlater
      have hlt : entry.1.toList < lead ++ rest := by
        rw [← afterLead?_eq_some_iff.mp hrest]
        exact hhead e he
      rcases lt_or_begins_of_lt hlt with hbelow | halike
      · refine hge entry (List.mem_cons_self ..) ?_
        show entry.1.toList < (String.ofList lead).toList
        rwa [String.toList_ofList]
      · exact hbegins halike

/-- **The keys that begin alike stand together.** This is why a listing may skip to the first of
them and stop at the first that is none. -/
theorem takeWhile_dropWhile_begins (h : KeyMap.Ascending entries) :
    ((entries.dropWhile fun entry => decide (entry.1 < String.ofList lead)).takeWhile
        fun entry => Path.begins lead entry.1) =
      entries.filter fun entry => Path.begins lead entry.1 := by
  induction entries with
  | nil => rfl
  | cons entry entries ih =>
    obtain ⟨hhead, hrest⟩ := List.pairwise_cons.mp h
    by_cases hbelow : entry.1 < String.ofList lead
    · have hother : ¬ Path.begins lead entry.1 = true := by
        intro hbegins
        obtain ⟨rest, hrest⟩ := Option.isSome_iff_exists.mp hbegins
        have hlt : entry.1.toList < (String.ofList lead).toList := hbelow
        rw [String.toList_ofList, afterLead?_eq_some_iff.mp hrest] at hlt
        exact not_append_lt lead rest hlt
      rw [List.dropWhile_cons, if_pos (decide_eq_true hbelow), List.filter_cons, if_neg hother,
        ih hrest]
    · rw [List.dropWhile_cons, if_neg (by simpa using hbelow)]
      refine takeWhile_begins h ?_
      intro e he hlt
      rcases List.mem_cons.mp he with rfl | he
      · exact hbelow hlt
      · exact hbelow (String.lt_trans (hhead e he) hlt)

end

/-- **A walk finds all that lies under a directory.** -/
theorem walk_eq_nodes (c : Contents) (dir : String) (recursive : Bool) :
    c.walk dir recursive = c.nodes fun key => Path.isUnder dir key recursive := by
  have hunder : ∀ entry : String × Entry,
      (Path.isChild (Path.dirLead dir) entry.1 recursive &&
        Path.begins (Path.dirLead dir) entry.1) = Path.isUnder dir entry.1 recursive := by
    intro entry
    rw [Path.isUnder, Path.isChild, Path.begins]
    cases afterLead? (Path.dirLead dir) entry.1.toList <;> simp
  simp only [walk, nodes, KeyMap.filterKeys, takeWhile_dropWhile_begins c.entries.ascending,
    List.filter_filter, hunder]

/-! ### Removing and writing -/

theorem mem_keys_filter_iff {doomed : String → Entry → Bool} {key : String} :
    key ∈ (c.entries.filter doomed).keys ↔ ∃ e, c.kept? key = some e ∧ doomed key e = true := by
  rw [KeyMap.mem_keys_iff, KeyMap.get?_filter, Option.isSome_iff_exists]
  exact exists_congr fun e => Option.filter_eq_some_iff

/-- What is removed is gone, and the rest is as it was. -/
theorem kept?_remove (c : Contents) (action : Action) (doomed : String → Entry → Bool)
    (key : String) :
    (c.remove action doomed).2.kept? key = (c.kept? key).filter fun e => !doomed key e :=
  KeyMap.get?_filter ..

/-- The same said by the keys of what is removed. -/
theorem kept?_remove_eq_ite (c : Contents) (action : Action) (doomed : String → Entry → Bool)
    (key : String) :
    (c.remove action doomed).2.kept? key =
      if key ∈ (c.entries.filter doomed).keys then none else c.kept? key := by
  rw [kept?_remove]
  simp only [mem_keys_filter_iff]
  cases c.kept? key with
  | none => simp
  | some e => cases hgone : doomed key e <;> simp [hgone]

/-- Whether an entry goes when a key is deleted. -/
def doomed (key : String) (recursive : Bool) (k : String) (_ : Entry) : Bool :=
  k == key || recursive && Path.isUnder key k true

/-- Deleting removes what is doomed, and fails if that is nothing. -/
theorem delete_eq (c : Contents) (key : String) (recursive : Bool) :
    c.delete key recursive =
      if (c.entries.filter (doomed key recursive)).keys = [] then .error (.keyNotFound key)
      else .ok ((), c.remove .delete (doomed key recursive)) := by
  have hfst : (c.remove .delete (doomed key recursive)).1 = [] ↔
      (c.entries.filter (doomed key recursive)).keys = [] := by
    rw [← List.length_eq_zero_iff, remove, length_removals, List.length_eq_zero_iff]
  rw [delete]
  split
  · rename_i d heq
    have hremove : c.remove .delete (doomed key recursive) = ([], d) := heq
    rw [if_pos (hfst.mp (congrArg Prod.fst hremove))]
  · rename_i changes d hne heq
    have hremove : c.remove .delete (doomed key recursive) = (changes, d) := heq
    rw [hremove] at hfst
    rw [if_neg fun hnil => hne (hfst.mpr hnil), hremove]

theorem kept?_put (c : Contents) (now : Moment) (action : Action) (key value : String)
    (ttl : Option Span) (k : String) :
    (c.put now action key value ttl).2.2.kept? k =
      if k = key then some ⟨value, c.index + 1, ttl.map fun ttl => now + ttl.toNanos⟩
      else c.kept? k :=
  KeyMap.get?_insert ..

/-! ### Calls -/

/-- What a call on contents answers and leaves, without its changes, which nobody looks at who is
not subscribed. -/
def settle {α : Type} (call : Contents → Effect α) (c : Contents) : Except Error α × Contents :=
  match call c with
  | .ok (a, _, d) => (.ok a, d)
  | .error e => (.error e, c)

theorem settle_create (c : Contents) (now : Moment) (key value : String) (ttl : Option Span) :
    settle (·.create now key value ttl) c =
      if c.entries.contains key = true then (.error (.keyExists key), c)
      else (.ok (c.put now .create key value ttl).1, (c.put now .create key value ttl).2.2) := by
  by_cases hthere : c.entries.contains key = true
  · simp only [settle, create, if_pos hthere]
  · simp only [settle, create, if_neg hthere]

end ControlPlane.Contents

namespace ControlPlane.Store

theorem update_eq_settle {α : Type} (s : Store) (now : Moment)
    (call : Contents → Contents.Effect α) :
    (s.update now call).1 = (Contents.settle call (s.contents.purge now).2).1 ∧
      (s.update now call).2.contents = (Contents.settle call (s.contents.purge now).2).2 ∧
        (s.update now call).2.subscriptions.length = s.subscriptions.length := by
  cases hcall : call (s.contents.purge now).2 <;> simp [update, Contents.settle, hcall, deliver]

/-- What is read of a key is what is kept of it after the reading. -/
theorem perform_get (s : Store) (now : Moment) (key : String) :
    (s.perform now (.get key)).1 =
      ((s.perform now (.get key)).2.contents.kept? key).elim (.error (.keyNotFound key))
        fun e => .ok (e.toNode key) := by
  show (s.update now fun contents => contents.get key).1 =
    ((s.update now fun contents => contents.get key).2.contents.kept? key).elim _ _
  rw [update]
  cases hentry : (s.contents.purge now).2.entries.get? key with
  | none =>
    simp only [Contents.get, Contents.kept?, deliver, hentry]
    rfl
  | some e =>
    simp only [Contents.get, Contents.kept?, deliver, hentry]
    rfl

theorem perform_get_eq_ok_iff (s : Store) (now : Moment) {key : String} {node : Node} :
    (s.perform now (.get key)).1 = .ok node ↔
      ((s.perform now (.get key)).2.contents.kept? key).map (Entry.toNode key) = some node := by
  rw [perform_get]
  cases (s.perform now (.get key)).2.contents.kept? key with
  | none => exact iff_of_false nofun nofun
  | some e =>
    exact ⟨fun h => congrArg some (Except.ok.inj h),
      fun h => congrArg Except.ok (Option.some.inj h)⟩

/-- What is listed of a directory are its nodes after the listing; a directory without any does not
exist. -/
theorem perform_list (s : Store) (now : Moment) (dir : String) (recursive : Bool) :
    let nodes := (s.perform now (.list dir recursive)).2.contents.nodes
      fun key => Path.isUnder dir key recursive
    (s.perform now (.list dir recursive)).1 =
      if nodes = [] then .error (.keyNotFound dir) else .ok nodes := by
  show (s.update now fun contents => contents.list dir recursive).1 =
    if (s.update now fun contents => contents.list dir recursive).2.contents.nodes _ = [] then
      .error (.keyNotFound dir)
    else .ok ((s.update now fun contents => contents.list dir recursive).2.contents.nodes _)
  rw [update]
  cases hwalk : (s.contents.purge now).2.walk dir recursive with
  | nil =>
    have hnodes := ((s.contents.purge now).2.walk_eq_nodes dir recursive).symm.trans hwalk
    simp only [Contents.list, deliver, hwalk, hnodes]
    rfl
  | cons node nodes =>
    have hnodes := ((s.contents.purge now).2.walk_eq_nodes dir recursive).symm.trans hwalk
    simp only [Contents.list, deliver, hwalk, hnodes]
    rfl

end ControlPlane.Store
