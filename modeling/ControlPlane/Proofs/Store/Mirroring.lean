import ControlPlane.Proofs.Store.Watching
import ControlPlane.Proofs.Text.Pieces

/-!
# Copies that are kept by following

A reader that subscribes to a directory and then reads it can keep a copy of it: it takes what it
has read and does with it what it is told. Nothing relates the two but their order. What it is told
includes changes from before the reading, which the reading has seen as well, and changes that
nobody asked for, since entries whose time is over go at the next call, which may be the reading
itself.

The copy is right all the same, because a change says all that it leaves under its key. After it,
what was there before no longer matters, and so neither does how often or how late a change is made
again. A key that is not changed any more after the subscription was opened is in the copy as it was
read.

## Main definitions

* `Scope`: what is copied, a directory or a key
* `Mirror`: the copy, and `Mirror.note`, `Mirror.notes`: changes made to it

## Main results

* `Mirror.get?_notes`: what changes leave of a copy
* `Mirror.nodes_notes`: the changes since the opening make up for what a copy lacks
* `History.mirror_current`: a copy is what is there
-/

namespace ControlPlane

/-- What a reader copies. -/
inductive Scope where
  /-- Everything under a directory, at any depth. -/
  | under (dir : String)
  /-- One key. -/
  | only (key : String)
deriving DecidableEq

namespace Scope

/-- The key that the reader subscribes to. -/
def key : Scope → String
  | under dir => dir
  | only key => key

/-- Whether it subscribes to everything under the key as well. -/
def recursive : Scope → Bool
  | under _ => true
  | only _ => false

/-- How it subscribes, so that changes of the same keys come. -/
def watch (scope : Scope) : StoreCall := .watch scope.key scope.recursive

/-- How it reads, behind the subscription. -/
def read : Scope → StoreCall
  | under dir => .list dir true
  | only key => .get key

/-- Whether a key is copied. The key of a directory is not, although its changes are told. -/
def covers : Scope → String → Bool
  | under dir, key => Path.isUnder dir key true
  | only key, k => k == key

/-- A subscription cuts the slashes at the end of its key, and reading a key does not. -/
def Watchable : Scope → Prop
  | under _ => True
  | only key => key.toList.getLast? ≠ some '/'

/-- What does not exist has no nodes, which is no failure of the reading. -/
def noneIfAbsent : Except Error (List Node) → Except Error (List Node)
  | .ok nodes => .ok nodes
  | .error e => if e.isNotFound then .ok [] else .error e

/-- The nodes that a reading finds. -/
def found (now : Moment) (s : Store) : Scope → Except Error (List Node)
  | under dir => noneIfAbsent (s.perform now (.list dir true)).1
  | only key => noneIfAbsent ((s.perform now (.get key)).1.map fun node => [node])

/-- **A reading finds what it leaves,** whether or not there is anything. -/
theorem found_eq (scope : Scope) (now : Moment) (s : Store) :
    scope.found now s = .ok ((s.perform now scope.read).2.contents.nodes scope.covers) := by
  cases scope with
  | under dir =>
    show noneIfAbsent (s.perform now (.list dir true)).1 = .ok
      ((s.perform now (.list dir true)).2.contents.nodes fun key => Path.isUnder dir key true)
    rw [s.perform_list now dir true]
    split
    · rename_i hnil
      rw [hnil]
      rfl
    · rfl
  | only key =>
    show noneIfAbsent ((s.perform now (.get key)).1.map fun node => [node]) = .ok
      ((s.perform now (.get key)).2.contents.nodes fun k => k == key)
    rw [s.perform_get now key, Contents.nodes_single]
    cases (s.perform now (.get key)).2.contents.kept? key <;> rfl

end Scope

/-! ### Copies -/

/-- A copy of some nodes, each under its key. -/
structure Mirror where
  held : KeyMap Node
  keyed : ∀ {key : String} {node : Node}, held.get? key = some node → node.key = key

namespace Mirror

variable {scope : Scope} {m : Mirror}

/-- The copy of nothing. -/
def empty : Mirror where
  held := .empty
  keyed h := by cases h

/-- Takes a node, in the place of one with its key. -/
def put (m : Mirror) (node : Node) : Mirror where
  held := m.held.insert node.key node
  keyed {key found} h := by
    rw [KeyMap.get?_insert] at h
    split at h
    · rename_i hkey
      rw [← Option.some.inj h, hkey]
    · exact m.keyed h

/-- Drops the node of a key, which need not be there. -/
def drop (m : Mirror) (key : String) : Mirror where
  held := m.held.erase key
  keyed {k found} h := by
    rw [KeyMap.get?_erase] at h
    split at h
    · cases h
    · exact m.keyed h

/-- The copy of some nodes. -/
def ofNodes (nodes : List Node) : Mirror := nodes.foldl put empty

/-- The copy after one change, if its key is copied at all. -/
def note (scope : Scope) (m : Mirror) (x : Change) : Mirror :=
  if scope.covers x.node.key then
    if x.action.isRemoval then m.drop x.node.key else m.put x.node
  else m

/-- The copy after some changes, in their order. -/
def notes (scope : Scope) (m : Mirror) (changes : List Change) : Mirror :=
  changes.foldl (note scope) m

/-- The node of a key. -/
def get? (m : Mirror) (key : String) : Option Node := m.held.get? key

/-- What is copied, in ascending order of the keys. -/
def nodes (m : Mirror) : List Node := m.held.entries.map Prod.snd

theorem get?_put (m : Mirror) (node : Node) (key : String) :
    (m.put node).get? key = if key = node.key then some node else m.get? key :=
  KeyMap.get?_insert ..

theorem get?_drop (m : Mirror) (key k : String) :
    (m.drop key).get? k = if k = key then none else m.get? k :=
  KeyMap.get?_erase ..

theorem mem_nodes_iff {node : Node} : node ∈ m.nodes ↔ m.get? node.key = some node := by
  rw [nodes, get?, List.mem_map, KeyMap.get?_eq_some_iff]
  constructor
  · rintro ⟨⟨key, found⟩, hmem, rfl⟩
    rwa [m.keyed (KeyMap.get?_eq_some_iff.mpr hmem)]
  · intro hmem
    exact ⟨_, hmem, rfl⟩

theorem ascending_nodes (m : Mirror) : m.nodes.Pairwise fun a b => a.key < b.key := by
  refine List.pairwise_map.mpr (m.held.ascending.imp_of_mem ?_)
  intro a b ha hb hlt
  rwa [m.keyed (KeyMap.get?_eq_some_iff.mpr ha), m.keyed (KeyMap.get?_eq_some_iff.mpr hb)]

/-- **A copy shows what it holds of each key.** -/
theorem nodes_eq {c : Contents} {keep : String → Bool}
    (h : ∀ key, m.get? key = if keep key then (c.kept? key).map (Entry.toNode key) else none) :
    m.nodes = c.nodes keep := by
  refine Contents.eq_nodes m.ascending_nodes fun node => ?_
  rw [mem_nodes_iff, Contents.mem_nodes_iff, h]
  split
  · rename_i hkeep
    simp only [Option.map_eq_some_iff, hkeep, true_and]
    exact exists_congr fun e => and_congr_right fun _ => eq_comm
  · rename_i hkeep
    simp [hkeep]

/-- Of nodes with different keys the one with the key is held. -/
theorem get?_foldl_put {nodes : List Node} (h : nodes.Pairwise fun a b => a.key ≠ b.key)
    (m : Mirror) {key : String} {node : Node} :
    (nodes.foldl put m).get? key = some node ↔
      (node ∈ nodes ∧ node.key = key) ∨
        ((∀ other ∈ nodes, other.key ≠ key) ∧ m.get? key = some node) := by
  induction nodes generalizing m with
  | nil => simp
  | cons first nodes ih =>
    obtain ⟨hhead, hrest⟩ := List.pairwise_cons.mp h
    rw [List.foldl_cons, ih hrest, get?_put]
    by_cases hkey : key = first.key
    · rw [if_pos hkey, Option.some.injEq]
      constructor
      · rintro (⟨hmem, hnode⟩ | ⟨-, rfl⟩)
        · exact .inl ⟨List.mem_cons_of_mem first hmem, hnode⟩
        · exact .inl ⟨List.mem_cons_self .., hkey.symm⟩
      · rintro (⟨hmem, hnode⟩ | ⟨hnone, -⟩)
        · rcases List.mem_cons.mp hmem with rfl | hmem
          · exact .inr ⟨fun other hother heq => hhead other hother (hnode.trans heq.symm), rfl⟩
          · exact .inl ⟨hmem, hnode⟩
        · exact absurd hkey.symm (hnone first (List.mem_cons_self ..))
    · rw [if_neg hkey, List.forall_mem_cons, List.mem_cons]
      constructor
      · rintro (⟨hmem, hnode⟩ | ⟨hnone, hheld⟩)
        · exact .inl ⟨.inr hmem, hnode⟩
        · exact .inr ⟨⟨Ne.symm hkey, hnone⟩, hheld⟩
      · rintro (⟨rfl | hmem, hnode⟩ | ⟨⟨-, hnone⟩, hheld⟩)
        · exact absurd hnode.symm hkey
        · exact .inl ⟨hmem, hnode⟩
        · exact .inr ⟨hnone, hheld⟩

theorem get?_ofNodes (c : Contents) (keep : String → Bool) (key : String) :
    (ofNodes (c.nodes keep)).get? key =
      if keep key then (c.kept? key).map (Entry.toNode key) else none := by
  refine Option.ext fun node => ?_
  rw [ofNodes, get?_foldl_put (c.pairwise_nodes keep), Contents.mem_nodes_iff]
  constructor
  · rintro (⟨⟨e, he, hkeep, hnode⟩, rfl⟩ | ⟨-, hheld⟩)
    · rw [if_pos hkeep, he, hnode]
      rfl
    · cases hheld
  · intro h
    split at h
    · rename_i hkeep
      obtain ⟨e, he, rfl⟩ := Option.map_eq_some_iff.mp h
      exact .inl ⟨⟨e, he, hkeep, rfl⟩, rfl⟩
    · cases h

/-- What one change leaves of a copy: its key gets what the change left there, if it is one that is
copied. -/
theorem get?_note (m : Mirror) (x : Change) (key : String) :
    (m.note scope x).get? key =
      if scope.covers key && x.node.key == key then x.leftNode else m.get? key := by
  by_cases hkey : x.node.key = key
  · subst hkey
    rw [note, beq_self_eq_true, Bool.and_true, Change.leftNode]
    split
    · split
      · rw [get?_drop, if_pos rfl]
      · rw [get?_put, if_pos rfl]
    · rfl
  · rw [beq_eq_false_iff_ne.mpr hkey, Bool.and_false, if_neg Bool.false_ne_true, note]
    split
    · split
      · rw [get?_drop, if_neg (Ne.symm hkey)]
      · rw [get?_put, if_neg (Ne.symm hkey)]
    · rfl

/-- **What changes leave of a copy.** The last change of a key decides. -/
theorem get?_notes (m : Mirror) (changes : List Change) {key : String}
    (hkey : scope.covers key = true) :
    (m.notes scope changes).get? key =
      (changes.filter fun x => x.node.key == key).getLast?.elim (m.get? key) Change.leftNode := by
  induction changes generalizing m with
  | nil => rfl
  | cons x changes ih =>
    rw [notes, List.foldl_cons, ← notes, ih, get?_note, hkey, Bool.true_and, List.filter_cons]
    split
    · rw [List.getLast?_cons]
      cases (changes.filter fun x => x.node.key == key).getLast? <;> rfl
    · rfl

theorem get?_notes_of_not_covers (m : Mirror) (changes : List Change) {key : String}
    (hkey : scope.covers key = false) : (m.notes scope changes).get? key = m.get? key := by
  induction changes generalizing m with
  | nil => rfl
  | cons x changes ih =>
    rw [notes, List.foldl_cons, ← notes, ih, get?_note, hkey, Bool.false_and,
      if_neg Bool.false_ne_true]

/-- **Telling changes again does no harm.** A copy of what was there at some point is made a copy
of what is there later by the changes in between, also if it is told of some from before that point
first. -/
theorem nodes_notes {before c d : Contents} {seen later told : List Change}
    (hseen : before.Evolves seen c) (hlater : c.Evolves later d)
    (htold : ∀ key, scope.covers key = true → told.filter (fun x => x.node.key == key) =
      (seen ++ later).filter fun x => x.node.key == key) :
    ((ofNodes (c.nodes scope.covers)).notes scope told).nodes = d.nodes scope.covers := by
  refine nodes_eq fun key => ?_
  cases hkey : scope.covers key with
  | false =>
    rw [get?_notes_of_not_covers _ _ hkey, get?_ofNodes, hkey, if_neg Bool.false_ne_true,
      if_neg Bool.false_ne_true]
  | true =>
    rw [get?_notes _ _ hkey, get?_ofNodes, hkey, if_pos rfl, if_pos rfl, htold key hkey,
      (hseen.trans hlater).node key]
    cases hlast : ((seen ++ later).filter fun x => x.node.key == key).getLast? with
    | some x => rfl
    | none =>
      -- the key was not changed either between the opening and the reading
      have hnone : seen.filter (fun x => x.node.key == key) = [] := by
        rw [List.getLast?_eq_none_iff, List.filter_append] at hlast
        exact (List.append_eq_nil_iff.mp hlast).1
      have hsame := hseen.node key
      rw [hnone] at hsame
      exact hsame

end Mirror

namespace Scope

variable {scope : Scope} {r : Reader}

/-- A subscription with the key and the depth of the copy asks for everything that is copied. -/
theorem wants_of_covers (hscope : scope.Watchable) (hkey : r.key = scope.key)
    (hrecursive : r.recursive = scope.recursive) {k : String} (hk : scope.covers k = true) :
    r.wants k = true := by
  rw [Reader.wants, Reader.watched, hkey, hrecursive]
  cases scope with
  | under dir =>
    have hlead : Path.dirLead (String.ofList (trimEnd '/' dir.toList)) = Path.dirLead dir := by
      rw [Path.dirLead, Path.dirLead, String.toList_ofList,
        trimEnd_eq_self (getLast?_trimEnd_ne '/' dir.toList)]
    have hunder : Path.isUnder (String.ofList (trimEnd '/' dir.toList)) k true = true := by
      rw [Path.isUnder, hlead]
      exact hk
    rw [Bool.or_eq_true, Bool.and_eq_true]
    exact .inr ⟨rfl, hunder⟩
  | only key =>
    rw [Bool.or_eq_true]
    refine .inl ?_
    show (k == String.ofList (trimEnd '/' key.toList)) = true
    rw [trimEnd_eq_self hscope, String.ofList_toList]
    exact hk

end Scope

namespace History

variable {scope : Scope} {opened read current : History} {id : WatchId} {r : Reader}
  {sub : Subscription} {between later : List Move}

/-- A reader who subscribed at `opened` and has the nodes that were there at `read` makes them those
at `current` by what it was told. -/
theorem Sound.nodes_notes (hsound : current.Sound) (hscope : scope.Watchable)
    (hhas : current.Has id r sub) (hkey : r.key = scope.key)
    (hrecursive : r.recursive = scope.recursive) (hopened : r.opened = opened.log.length)
    (hread : opened.follow between = read) (hlater : read.follow later = current)
    (hlive : sub.feed.isLive = true) (hempty : sub.feed.pending = []) :
    ((Mirror.ofNodes (read.store.contents.nodes scope.covers)).notes scope r.received).nodes =
      current.store.contents.nodes scope.covers := by
  subst hread hlater
  obtain ⟨seen, hseenLog, hseen⟩ := opened.evolves_follow between
  obtain ⟨told, htoldLog, htold⟩ := (opened.follow between).evolves_follow later
  -- all that the reader has asked for since it subscribed has been received
  have hreceived := (hsound.follows id r sub hhas).complete hlive
  rw [hempty, List.append_nil, Reader.due, Reader.wanted, hopened, htoldLog, hseenLog,
    List.append_assoc, List.drop_left] at hreceived
  refine Mirror.nodes_notes hseen htold fun key hcovers => ?_
  have hwants := Scope.wants_of_covers hscope hkey hrecursive hcovers
  rw [hreceived, List.filter_filter]
  refine List.filter_congr fun x _ => ?_
  by_cases hx : x.node.key = key
  · rw [hx, hwants, Bool.and_true]
  · rw [beq_eq_false_iff_ne.mpr hx, Bool.false_and]

/-- **Subscribe, read, follow: the copy is what is there.** Whatever happens before, in between and
afterwards, a reader that subscribed and then read has, as long as it is told and once it has taken
all that is buffered, the nodes of the store with their values and indices. -/
theorem mirror_current (scope : Scope) (hscope : scope.Watchable)
    (before between later : List Move) (opening reading : Moment) :
    let h : History := follow {} before
    let ready := (h.after (.call opening scope.watch)).follow between
    let current := (ready.after (.call reading scope.read)).follow later
    (h.store.perform opening (.watch scope.key scope.recursive)).1 = .ok h.readers.length ∧
      ∃ nodes received, scope.found reading ready.store = .ok nodes ∧
        current.readers[h.readers.length]? =
          some ⟨scope.key, scope.recursive, h.log.length, received⟩ ∧
        ((current.store.feed h.readers.length).isLive = true →
          (current.store.feed h.readers.length).pending = [] →
            ((Mirror.ofNodes nodes).notes scope received).nodes =
              current.store.contents.nodes scope.covers) := by
  intro h ready current
  have hsound : h.Sound := sound_start.follow before
  -- the reader keeps its number until the reading and from then on
  obtain ⟨heard, sub, hready⟩ :=
    follow_at (has_opened hsound opening scope.key scope.recursive) between
  obtain ⟨received, sub', hcurrent⟩ :=
    follow_at hready (.call reading scope.read :: later)
  have hhas : current.Has h.readers.length
      ⟨scope.key, scope.recursive, h.log.length, received⟩ sub' := hcurrent
  refine ⟨?_, _, received, scope.found_eq reading ready.store, hhas.reader, ?_⟩
  · rw [hsound.length]
    rfl
  · intro hlive hempty
    rw [hhas.feed] at hlive hempty
    have hlast : current.Sound :=
      ((hsound.after (.call opening scope.watch)).follow between).follow
        (.call reading scope.read :: later)
    have hread := (h.after (.call opening scope.watch)).follow_concat between
      (.call reading scope.read)
    have hopened : (h.after (.call opening scope.watch)).log = h.log := List.append_nil _
    have hcopied := hlast.nodes_notes hscope hhas rfl rfl (congrArg List.length hopened.symm)
      hread rfl hlive hempty
    exact hcopied

/-- The moves of `mirror_current_lapsed` after the reading: an entry's time is over, the directory's
own key is written, another key goes and comes back, and the reader takes what it is told. -/
def lapsing : List Move :=
  [.call 9 (.get "/d/none"), .call 9 (.set "/d" "0" none), .call 9 (.delete "/d/a" false),
    .call 9 (.set "/d/a" "3" none)] ++ List.replicate 6 (.receive 0)

/-- A directory of which a change before the reading is told again, and one of whose entries goes
only because something else is read; and a key of it. -/
theorem mirror_current_lapsed :
    let before := [.call 0 (.set "/d/a" "1" none)]
    let between := [.call 1 (.set "/d/b" "2" (some ⟨0, 5, by decide⟩))]
    let ready := fun scope : Scope =>
      ((follow {} before).after (.call 1 scope.watch)).follow between
    let current := fun scope : Scope =>
      ((ready scope).after (.call 2 scope.read)).follow lapsing
    (∃ nodes received, (Scope.under "/d/").found 2 (ready (.under "/d/")).store = .ok nodes ∧
      (current (.under "/d/")).readers[0]? = some ⟨"/d/", true, 1, received⟩ ∧
      ((Mirror.ofNodes nodes).notes (.under "/d/") received).nodes = [⟨"/d/a", "3", 6⟩]) ∧
    ∃ nodes received, (Scope.only "/d/a").found 2 (ready (.only "/d/a")).store = .ok nodes ∧
      (current (.only "/d/a")).readers[0]? = some ⟨"/d/a", false, 1, received⟩ ∧
      ((Mirror.ofNodes nodes).notes (.only "/d/a") received).nodes = [⟨"/d/a", "3", 6⟩] := by
  intro before between ready current
  constructor
  · obtain ⟨-, nodes, received, hfound, hreader, hmirror⟩ :=
      mirror_current (.under "/d/") trivial before between lapsing 1 2
    refine ⟨nodes, received, hfound, hreader, ?_⟩
    rw [hmirror (by decide +kernel) (by decide +kernel)]
    decide +kernel
  · obtain ⟨-, nodes, received, hfound, hreader, hmirror⟩ :=
      mirror_current (.only "/d/a") (show _ ≠ _ by decide) before between lapsing 1 2
    refine ⟨nodes, received, hfound, hreader, ?_⟩
    rw [hmirror (by decide +kernel) (by decide +kernel)]
    decide +kernel

end History

end ControlPlane
