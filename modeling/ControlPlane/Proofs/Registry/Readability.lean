import ControlPlane.Proofs.Registry.Consistency
import ControlPlane.Proofs.Registry.Unbinding

/-!
# Manifest lists that cannot be read any more

A manifest list is written as JSON and read as YAML, and there are characters that the writer leaves
alone and the reader does not allow. Nobody looks for them when a task is bound. The binding
succeeds, and from then on the list of the machine cannot be read: not by its node agent, and not by
the registry either, which reads the list before it writes it. So no task can be bound to the
machine or unbound from it any more, the one with the character included, and there is no way out of
this.

Short of that, lists are read. Characters that end a line are left out of the account: YAML folds
lines, so that a text with such a character is not read as it was written, and what a list holds
then depends on what stands around them.

All this follows from what an operation comes to on a store that does not fail, which `Ends` says
once: it is refused for one of three reasons, or it sets one task and writes one list that it has
read.

## Main definitions

* `Registry.Named`, `Registry.OneLined`: the operations
* `Registry.Ends`, `Registry.Rewrote`: what an operation comes to
* `Registry.Concerns`: the operations that a machine has to do with
* `Registry.Onward`: what further operations leave
* `Registry.Spoilt`, `Registry.Mirrored`: the invariants

## Main results

* `Registry.Documented.ensures_ends`: one operation
* `Registry.lists_readable`: which lists can be read, and what becomes of the others
* `Registry.lists_spoilt`: a list that cannot be read
-/

namespace ControlPlane.Registry

open Contents ControlPlane.Path Keys Store StoreWork

variable {machines : List String} {machine m id : String} {b c d : Contents} {s t : Store}
  {op : Operation} {r : Except Error Unit} {new : Option Task} {list list' : List Manifest}

/-! ### Operations -/

/-- Tasks that may be bound: on one of the machines, under an id that names one document. Any id may
be unbound. -/
def Named (machines : List String) : Operation → Prop
  | .create machine t => machine ∈ machines ∧ ValidId t.id
  | .delete _ => True

/-- Such tasks without characters that end a line. It is the manifest that matters; the document of
the task is written and read as JSON. -/
def OneLined (machines : List String) : Operation → Prop
  | .create machine t => machine ∈ machines ∧ ValidId t.id ∧ (boundManifest t).OnOneLine
  | .delete _ => True

theorem OneLined.named (h : OneLined machines op) : Named machines op := by
  cases op with
  | create machine t => exact ⟨h.1, h.2.1⟩
  | delete id => trivial

theorem Named.proper (h : Named machines op) (hflat : ∀ m ∈ machines, Flat m) : Proper op := by
  cases op with
  | create machine t => exact ⟨hflat machine h.1, h.2⟩
  | delete id => trivial

/-- The operation binds a task to the machine, or unbinds one that is there. -/
def Concerns (machines : List String) (c : Contents) (m : String) : Operation → Prop
  | .create machine _ => machine = m
  | .delete id => ∃ t, located? c machines id = some (m, t)

/-- A machine is the only one that an operation has to do with. -/
theorem Concerns.unique {m' : String} (h : Concerns machines c m op)
    (h' : Concerns machines c m' op) : m = m' := by
  cases op with
  | create machine t => exact h.symm.trans h'
  | delete id =>
    obtain ⟨t, ht⟩ := h
    obtain ⟨t', ht'⟩ := h'
    exact congrArg Prod.fst (Option.some.inj (ht.symm.trans ht'))

/-- The document of one id is set on a machine, whose list was read and is written anew. -/
structure Rewrote (machine id : String) (new : Option Task) (list list' : List Manifest)
    (c d : Contents) : Prop where
  read : manifestsOn c machine = .ok list
  written : manifestsOn d machine = Manifest.decodeList (Manifest.encodeList list')
  task : SetsTask machine id new c d
  elsewhere : SameElsewhere machine c d

/-- What an operation comes to if no call fails: its result, and what it leaves. -/
inductive Ends (machines : List String) (c : Contents) :
    Operation → Except Error Unit → Contents → Prop
  | there (machine : String) (t : Task) {existing : String} {found : Task} :
      located? c machines t.id = some (existing, found) →
      Ends machines c (.create machine t) (.error (.taskExists t.id existing)) c
  | missing (id : String) : located? c machines id = none →
      Ends machines c (.delete id) (.error (.taskNotFound id)) c
  | unread {op : Operation} {m : String} {e : Error} : Concerns machines c m op →
      manifestsOn c m = .error e → Ends machines c op (.error e) c
  | bound {machine : String} {t : Task} {list : List Manifest} {d : Contents} :
      (∀ m ∈ machines, taskOn? c m t.id = none) →
      Rewrote machine t.id (some (t.boundTo machine)) list (list ++ [boundManifest t]) c d →
      Ends machines c (.create machine t) (.ok ()) d
  | unbound {id machine : String} {t : Task} {list : List Manifest} {d : Contents} :
      located? c machines id = some (machine, t) →
      Rewrote machine id none list (list.filter (·.id != id)) c d →
      Ends machines c (.delete id) (.ok ()) d

/-- The two writes of a binding. -/
theorem rewrote_of_bound {t : Task} (hmachine : Flat machine)
    (hread : manifestsOn c machine = .ok list)
    (hw : c.Wrote b (Keys.task machine t.id) (t.boundTo machine).encode)
    (hv : b.Wrote d (Keys.manifests machine) (Manifest.encodeList list')) :
    Rewrote machine t.id (some (t.boundTo machine)) list list' c d where
  read := hread
  written := by rw [manifestsOn, hv.kept?, if_pos rfl]
  task := setsTask_of_bound hmachine hw hv
  elsewhere := (sameElsewhere_of_task hmachine hw.frame).trans
    (sameElsewhere_of_manifests hmachine hv.frame)

/-- The two writes of an unbinding, in the other order. -/
theorem rewrote_of_unbound (hmachine : Flat machine) (hread : manifestsOn c machine = .ok list)
    (hw : c.Wrote b (Keys.manifests machine) (Manifest.encodeList list'))
    (hd : b.Dropped d (Keys.task machine id)) : Rewrote machine id none list list' c d where
  read := hread
  written := by
    rw [manifestsOn, hd.frame _ (task_ne_manifests hmachine hmachine).symm, hw.kept?, if_pos rfl]
  task := setsTask_of_unbound hmachine hw hd
  elsewhere := (sameElsewhere_of_manifests hmachine hw.frame).trans
    (sameElsewhere_of_task hmachine hd.frame)

/-- **One operation** on a store that does not fail. -/
theorem Documented.ensures_ends (h : Documented machines s.contents)
    (hflat : ∀ m ∈ machines, Flat m) (hop : Named machines op) :
    (op.work machines).run.Ensures (serves False) (fun _ => True)
      (fun r u => Documented machines u.contents ∧ Ends machines s.contents op r u.contents) s := by
  cases op with
  | create machine t =>
    have hmachine := hflat machine hop.1
    refine ensures_createTask_cases h.filed hflat trivial False.elim ?_ ?_ ?_ ?_
    · exact fun _ _ hlocated => ⟨h, .there machine t hlocated⟩
    · have hconcerns : Concerns machines s.contents machine (.create machine t) := rfl
      exact fun _ _ hunread => ⟨h, .unread hconcerns hunread⟩
    · intro e hlocated hoccupied
      rw [located?_eq_none h.filed hflat hlocated machine hop.1] at hoccupied
      cases hoccupied
    · intro u list hfree hread hw
      have hfree' : ∀ m ∈ machines, s.contents.kept? (Keys.task m t.id) = none :=
        fun m hm => hfree m (List.mem_cons_of_mem _ hm)
      have hu : Documented machines u.contents :=
        h.wrote_task (t := t.boundTo machine) hflat hmachine hop.2 hfree' hw
      refine ⟨trivial, False.elim, fun v hv => ⟨trivial, hu.wrote_manifests hflat hmachine hv, ?_⟩⟩
      exact .bound (fun m hm => taskOn?_eq_none (hfree' m hm))
        (rewrote_of_bound hmachine hread hw hv)
  | delete id =>
    refine ensures_deleteTask_under h.filed hflat trivial (fun h _ => h.elim) ?_ ?_ ?_
    · exact fun hlocated => ⟨h, .missing id hlocated⟩
    · intro machine t e hlocated hunread
      have hconcerns : Concerns machines s.contents machine (.delete id) := ⟨t, hlocated⟩
      exact ⟨h, .unread hconcerns hunread⟩
    · intro machine t u list hlocated hread hw
      obtain ⟨hmem, t', ht', -⟩ := located?_eq_some hlocated
      have hmachine := hflat machine hmem
      have hu := h.wrote_manifests hflat hmachine hw
      have hid := h.validId hmachine (isSome_kept?_of_taskOn? ht')
      refine ⟨trivial, fun h _ => h.elim, fun v hv => ⟨trivial, ?_⟩⟩
      have hdropped : u.contents.Dropped v.contents (Keys.task machine id) :=
        hv.dropped fun _ => hu.isUnder_task hmachine hid
      exact ⟨hu.dropped_task hdropped,
        .unbound hlocated (rewrote_of_unbound hmachine hread hw hdropped)⟩

/-- The other machines are as they were. -/
theorem Rewrote.other (h : Rewrote machine id new list list' c d) (hm : Flat m)
    (hne : m ≠ machine) :
    manifestsOn d m = manifestsOn c m ∧ ∀ id', taskOn? d m id' = taskOn? c m id' := by
  obtain ⟨hmanifests, htasks⟩ := h.elsewhere m hm hne
  refine ⟨?_, fun id' => ?_⟩
  · rw [manifestsOn, manifestsOn, hmanifests]
  · rw [taskOn?, taskOn?, htasks id']

/-- **A list that cannot be read** is left as it is, and the operations that the machine has to do
with fail. -/
theorem Ends.of_unread (h : Ends machines c op r d) (hm : Flat m) {e : Error}
    (hunread : manifestsOn c m = .error e) :
    manifestsOn d m = .error e ∧ (Concerns machines c m op → r ≠ .ok ()) := by
  -- the machine whose list was written is another one
  have hother : ∀ {machine id new list list'}, Rewrote machine id new list list' c d →
      m ≠ machine ∧ manifestsOn d m = .error e := by
    intro machine id new list list' hrewrote
    have hne : m ≠ machine := by
      rintro rfl
      rw [hrewrote.read] at hunread
      cases hunread
    exact ⟨hne, (hrewrote.other hm hne).1.trans hunread⟩
  cases h with
  | there => exact ⟨hunread, fun _ => nofun⟩
  | missing => exact ⟨hunread, fun _ => nofun⟩
  | unread => exact ⟨hunread, fun _ => nofun⟩
  | bound _ hrewrote =>
    obtain ⟨hne, hstill⟩ := hother hrewrote
    exact ⟨hstill, fun hconcerns => absurd hconcerns.symm hne⟩
  | @unbound id machine t _ _ hlocated hrewrote =>
    obtain ⟨hne, hstill⟩ := hother hrewrote
    have hunbound : Concerns machines c machine (.delete id) := ⟨t, hlocated⟩
    exact ⟨hstill, fun hconcerns => absurd (hconcerns.unique hunbound) hne⟩

/-- Where the list of the machine can be read, an operation succeeds, unless it binds a task that is
there already. -/
theorem Ends.of_read (h : Ends machines c op r d) (hread : manifestsOn c m = .ok list)
    (hconcerns : Concerns machines c m op) :
    r = .ok () ∨ ∃ t existing found, op = .create m t ∧
      located? c machines t.id = some (existing, found) ∧
      r = .error (.taskExists t.id existing) := by
  cases h with
  | there machine t hlocated =>
    obtain rfl : machine = m := hconcerns
    exact .inr ⟨t, _, _, rfl, hlocated, rfl⟩
  | missing id hlocated =>
    obtain ⟨t, ht⟩ := hconcerns
    rw [hlocated] at ht
    cases ht
  | unread hconcerns' hunread =>
    obtain rfl := hconcerns.unique hconcerns'
    rw [hread] at hunread
    cases hunread
  | bound => exact .inl rfl
  | unbound => exact .inl rfl

/-! ### Lists with a character that is not allowed -/

/-- The list of a machine with a task that YAML does not allow cannot be read. -/
def Spoilt (c : Contents) (m : String) : Prop :=
  ∀ id t, taskOn? c m id = some t → ¬ (boundManifest t).Readable → manifestsOn c m = .error .badYaml

theorem Rewrote.spoilt (h : Rewrote machine id new list list' c d) (hmachine : Flat machine)
    (hnew : ∀ t, new = some t → boundManifest t ∈ list') (hc : Spoilt c machine) :
    Spoilt d machine := by
  intro id' t ht hrefused
  rw [h.task machine id' hmachine] at ht
  split at ht
  · rw [h.written]
    exact Manifest.decodeList_of_not_readable (hnew t ht) hrefused
  · have hunread := hc id' t ht hrefused
    rw [h.read] at hunread
    cases hunread

theorem Ends.spoilt (h : Ends machines c op r d) (hflat : ∀ m ∈ machines, Flat m)
    (hop : Named machines op) (hc : ∀ m ∈ machines, Spoilt c m) : ∀ m ∈ machines, Spoilt d m := by
  have hrewrote : ∀ {machine id new list list'}, machine ∈ machines →
      Rewrote machine id new list list' c d → (∀ t, new = some t → boundManifest t ∈ list') →
      ∀ m ∈ machines, Spoilt d m := by
    intro machine id new list list' hmachine hrewrote hnew m hm
    by_cases hne : m = machine
    · subst hne
      exact hrewrote.spoilt (hflat m hm) hnew (hc m hm)
    · obtain ⟨hlist, htasks⟩ := hrewrote.other (hflat m hm) hne
      intro id' t ht hrefused
      rw [hlist]
      exact hc m hm id' t (htasks id' ▸ ht) hrefused
  cases h with
  | there => exact hc
  | missing => exact hc
  | unread => exact hc
  | @bound machine t _ _ _ hbound =>
    refine hrewrote hop.1 hbound fun t' ht' => ?_
    obtain rfl := Option.some.inj ht'
    exact List.mem_append_right _ (List.mem_singleton_self _)
  | unbound hlocated hunbound => exact hrewrote (located?_eq_some hlocated).1 hunbound nofun

/-! ### Lists on one line -/

/-- The list of a machine was written with exactly the manifests of the tasks there, none of which
has a character that ends a line. -/
structure Mirrored (c : Contents) (m : String) (list : List Manifest) : Prop where
  written : manifestsOn c m = Manifest.decodeList (Manifest.encodeList list)
  oneLine : ∀ x ∈ list, x.OnOneLine
  mem_iff : ∀ x, x ∈ list ↔ ∃ t, taskOn? c m x.id = some t ∧ boundManifest t = x

/-- A list that can be read holds what was written. -/
theorem Mirrored.eq_of_read (h : Mirrored c m list) (hread : manifestsOn c m = .ok list') :
    list' = list := by
  have hreadable : ∀ x ∈ list, x.Readable := by
    by_contra hnot
    simp only [not_forall] at hnot
    obtain ⟨x, hx, hrefused⟩ := hnot
    rw [h.written, Manifest.decodeList_of_not_readable hx hrefused] at hread
    cases hread
  rw [h.written, Manifest.decodeList_of_readable fun x hx => ⟨hreadable x hx, h.oneLine x hx⟩]
    at hread
  exact (Except.ok.inj hread).symm

theorem Rewrote.mirrored (h : Rewrote machine id new list list' c d) (hmachine : Flat machine)
    (hc : Mirrored c machine list) (hline : ∀ x ∈ list', x.OnOneLine)
    (hlist' : ∀ x, x ∈ list' ↔
      if x.id = id then ∃ t, new = some t ∧ boundManifest t = x else x ∈ list) :
    Mirrored d machine list' where
  written := h.written
  oneLine := hline
  mem_iff x := by
    rw [hlist' x, h.task machine x.id hmachine]
    by_cases hid : x.id = id
    · rw [if_pos hid, if_pos ⟨rfl, hid⟩]
    · rw [if_neg hid, if_neg fun heq => hid heq.2]
      exact hc.mem_iff x

/-- A manifest more, for a task that was not there. -/
theorem Rewrote.mirrored_bound {t : Task}
    (h : Rewrote machine t.id (some (t.boundTo machine)) list (list ++ [boundManifest t]) c d)
    (hmachine : Flat machine) (hc : Mirrored c machine list) (hfree : taskOn? c machine t.id = none)
    (hline : (boundManifest t).OnOneLine) : Mirrored d machine (list ++ [boundManifest t]) := by
  refine h.mirrored hmachine hc ?_ fun x => ?_
  · exact List.forall_mem_append.mpr ⟨hc.oneLine, List.forall_mem_singleton.mpr hline⟩
  rw [List.mem_append, List.mem_singleton]
  by_cases hid : x.id = t.id
  · have hnone : x ∉ list := fun hx => by
      obtain ⟨t', ht', -⟩ := (hc.mem_iff x).mp hx
      rw [hid, hfree] at ht'
      cases ht'
    rw [if_pos hid, or_iff_right hnone]
    exact ⟨fun hx => ⟨_, rfl, hx.symm⟩, fun ⟨t', ht', hx⟩ => by
      rw [← hx, ← Option.some.inj ht']
      rfl⟩
  · rw [if_neg hid, or_iff_left]
    rintro rfl
    exact hid rfl

/-- No manifest of an id any more, and none of its tasks. -/
theorem Rewrote.mirrored_unbound
    (h : Rewrote machine id none list (list.filter (·.id != id)) c d) (hmachine : Flat machine)
    (hc : Mirrored c machine list) : Mirrored d machine (list.filter (·.id != id)) := by
  refine h.mirrored hmachine hc (fun x hx => hc.oneLine x (List.mem_of_mem_filter hx)) fun x => ?_
  rw [List.mem_filter, bne_iff_ne]
  by_cases hid : x.id = id
  · simp [hid]
  · simp [hid]

/-- Where one list was rewritten, the others are what they were. -/
theorem Rewrote.mirrored_all (h : Rewrote machine id new list list' c d)
    (hflat : ∀ m ∈ machines, Flat m) (hc : ∀ m ∈ machines, ∃ list, Mirrored c m list)
    (hnew : Mirrored c machine list → Mirrored d machine list') :
    ∀ m ∈ machines, ∃ list, Mirrored d m list := by
  intro m hm
  obtain ⟨other, hother⟩ := hc m hm
  by_cases hne : m = machine
  · subst hne
    obtain rfl := hother.eq_of_read h.read
    exact ⟨list', hnew hother⟩
  · obtain ⟨hlist, htasks⟩ := h.other (hflat m hm) hne
    exact ⟨other, hlist.trans hother.written, hother.oneLine, fun x => by
      rw [htasks]
      exact hother.mem_iff x⟩

theorem Ends.mirrored (h : Ends machines c op r d) (hflat : ∀ m ∈ machines, Flat m)
    (hop : OneLined machines op) (hc : ∀ m ∈ machines, ∃ list, Mirrored c m list) :
    ∀ m ∈ machines, ∃ list, Mirrored d m list := by
  cases h with
  | there => exact hc
  | missing => exact hc
  | unread => exact hc
  | bound hfree hbound =>
    exact hbound.mirrored_all hflat hc fun hlist =>
      hbound.mirrored_bound (hflat _ hop.1) hlist (hfree _ hop.1) hop.2.2
  | unbound hlocated hunbound =>
    exact hunbound.mirrored_all hflat hc
      (hunbound.mirrored_unbound (hflat _ (located?_eq_some hlocated).1))

/-! ### Sessions -/

theorem Session.spoilt (h : Session False machines (Named machines) s)
    (hflat : ∀ m ∈ machines, Flat m) : ∀ m ∈ machines, Spoilt s.contents m := by
  have hdocumented := h.mono fun op hop => hop.proper hflat
  refine (h.induction (fun _ => True)
    (fun u => Documented machines u.contents ∧ ∀ m ∈ machines, Spoilt u.contents m) trivial
    ⟨documented_empty machines, ?_⟩ fun u op _ hop hu => ?_).2.2
  · intro m _ id t ht
    cases ht
  · refine (hu.1.ensures_ends hflat hop).mono fun r v _ hends => ?_
    exact ⟨hends.1, hends.2.spoilt hflat hop hu.2⟩

theorem Session.mirrored (h : Session False machines (OneLined machines) s)
    (hflat : ∀ m ∈ machines, Flat m) : ∀ m ∈ machines, ∃ list, Mirrored s.contents m list := by
  refine (h.induction (fun _ => True)
    (fun u => Documented machines u.contents ∧ ∀ m ∈ machines, ∃ list, Mirrored u.contents m list)
    trivial ⟨documented_empty machines, ?_⟩ fun u op _ hop hu => ?_).2.2
  · refine fun m _ => ⟨[], ?_, fun _ hx => (by cases hx), fun x => ⟨fun hx => (by cases hx), ?_⟩⟩
    · exact (Manifest.decodeList_of_readable fun _ hx => by cases hx).symm
    · rintro ⟨t, ht, -⟩
      cases ht
  · refine (hu.1.ensures_ends hflat hop.named).mono fun r v _ hends => ?_
    exact ⟨hends.1, hends.2.mirrored hflat hop hu.2⟩

/-- What further operations leave, each of them made to its end. -/
inductive Onward (failing : Prop) (machines : List String) (admits : Operation → Prop) (s : Store) :
    Store → Prop
  | refl : Onward failing machines admits s s
  | operation {t u : Store} {op : Operation} {r : Except Error Unit} :
      Onward failing machines admits s t → admits op →
      Program.Reaches (serves failing) (op.work machines).run t (.done r) u →
      Onward failing machines admits s u

theorem Onward.of_unread (h : Onward False machines (Named machines) s t)
    (hflat : ∀ m ∈ machines, Flat m) (hs : Documented machines s.contents) (hm : Flat m) {e : Error}
    (hunread : manifestsOn s.contents m = .error e) :
    Documented machines t.contents ∧ manifestsOn t.contents m = .error e := by
  induction h with
  | refl => exact ⟨hs, hunread⟩
  | operation _ hop hrun ih =>
    obtain ⟨hdocumented, hends⟩ := (ih.1.ensures_ends hflat hop).post_of_reaches hrun
    exact ⟨hdocumented, (hends.of_unread hm ih.2).1⟩

/-- **Which lists can be read, and what becomes of the others.** Operations on a store that does not
fail bind tasks with any texts to the machines, under ids that name one document.

A list cannot be read if a task on its machine has a character that JSON leaves alone and YAML does
not allow. A list that cannot be read is never read again, whatever comes after, and every operation
that its machine has to do with fails. As long as a list can be read, such an operation succeeds,
unless the task that it binds is there already.

If no task was ever bound that has a character which ends a line, these are all the lists that
cannot be read; the others hold the manifests of the tasks on their machines. -/
theorem lists_readable (hflat : ∀ m ∈ machines, Flat m) (hm : m ∈ machines) :
    (∀ s, Session False machines (Named machines) s → ∀ now,
      (∀ id t, located? s.contents machines id = some (m, t) → ¬ (boundManifest t).Readable →
        answer now (manifests m) s = .error .badYaml) ∧
      (∀ e, answer now (manifests m) s = .error e → ∀ t,
        Onward False machines (Named machines) s t →
        (∀ later, answer later (manifests m) t = .error e) ∧
        ∀ op r u, Named machines op → Concerns machines t.contents m op →
          Program.Reaches (serves False) (op.work machines).run t (.done r) u → r ≠ .ok ()) ∧
      ∀ list, answer now (manifests m) s = .ok list →
        ∀ op r u, Named machines op → Concerns machines s.contents m op →
          Program.Reaches (serves False) (op.work machines).run s (.done r) u →
          r = .ok () ∨ ∃ t existing found, op = .create m t ∧
            located? s.contents machines t.id = some (existing, found) ∧
            r = .error (.taskExists t.id existing)) ∧
    ∀ s, Session False machines (OneLined machines) s → ∀ now,
      (∀ id t, located? s.contents machines id = some (m, t) → (boundManifest t).Readable) →
      ∃ list, answer now (manifests m) s = .ok list ∧
        ∀ x, x ∈ list ↔
          ∃ t, located? s.contents machines x.id = some (m, t) ∧ boundManifest t = x := by
  have hname := hflat m hm
  refine ⟨fun s hs now => ?_, fun s hs now hreadable => ?_⟩
  · have hdocumented := (hs.mono fun op hop => hop.proper hflat).documented hflat
    rw [answer_manifests hdocumented.lasting]
    refine ⟨fun id t hlocated hrefused => ?_, fun e hunread t honward => ?_,
      fun list hread op r u hop hconcerns hrun => ?_⟩
    · obtain ⟨-, t', ht', rfl⟩ := located?_eq_some hlocated
      exact hs.spoilt hflat m hm id t' ht' hrefused
    · obtain ⟨hdocumented', hunread'⟩ := honward.of_unread hflat hdocumented hname hunread
      refine ⟨fun later => (answer_manifests hdocumented'.lasting later m).trans hunread',
        fun op r u hop hconcerns hrun => ?_⟩
      have hends := ((hdocumented'.ensures_ends hflat hop).post_of_reaches hrun).2
      exact (hends.of_unread hname hunread').2 hconcerns
    · have hends := ((hdocumented.ensures_ends hflat hop).post_of_reaches hrun).2
      exact hends.of_read hread hconcerns
  · have hdocumented := (hs.mono fun op hop => hop.named.proper hflat).documented hflat
    obtain ⟨list, hlist⟩ := hs.mirrored hflat m hm
    have hlocated : ∀ id t, located? s.contents machines id = some (m, t) ↔
        ∃ t', taskOn? s.contents m id = some t' ∧ t = t'.observedOn m := fun id t =>
      hdocumented.filed.located?_eq_some_iff.trans (and_iff_right hm)
    refine ⟨list, ?_, fun x => ?_⟩
    · rw [answer_manifests hdocumented.lasting, hlist.written]
      refine Manifest.decodeList_of_readable fun x hx => ⟨?_, hlist.oneLine x hx⟩
      obtain ⟨t, ht, rfl⟩ := (hlist.mem_iff x).mp hx
      exact hreadable _ (t.observedOn m) ((hlocated _ _).mpr ⟨t, ht, rfl⟩)
    · rw [hlist.mem_iff]
      constructor
      · rintro ⟨t, ht, hx⟩
        exact ⟨_, (hlocated _ _).mpr ⟨t, ht, rfl⟩, hx⟩
      · rintro ⟨t, ht, hx⟩
        obtain ⟨t', ht', rfl⟩ := (hlocated _ _).mp ht
        exact ⟨t', ht', hx⟩

/-! ### A list that is spoilt -/

/-- A task with a character that JSON leaves alone and YAML does not allow. -/
def deleteNamed : Task where
  id := "web"
  desiredState := { manifest := { containers := [{ name := "a\x7f" }] } }

/-- This task on the first of two machines. -/
def spoiltStore : Store := Operation.left ["h1", "h2"] (.create "h1" deleteNamed) .empty

theorem flat_h1_h2 : ∀ m ∈ ["h1", "h2"], Flat m := by decide

theorem named_deleteNamed : Named ["h1", "h2"] (.create "h1" deleteNamed) :=
  ⟨by decide, by decide, by decide⟩

theorem session_spoiltStore : Session False ["h1", "h2"] (Named ["h1", "h2"]) spoiltStore :=
  Session.empty.left named_deleteNamed

theorem filed_spoiltStore : Filed ["h1", "h2"] spoiltStore.contents :=
  ((session_spoiltStore.mono fun _ hop => hop.proper flat_h1_h2).documented flat_h1_h2).filed

theorem rewrote_spoiltStore :
    Rewrote "h1" "web" (some (deleteNamed.boundTo "h1")) [] [boundManifest deleteNamed]
      Store.empty.contents spoiltStore.contents := by
  obtain ⟨r, hrun⟩ := Operation.reaches_left ["h1", "h2"] (.create "h1" deleteNamed) .empty
  have hempty : Documented ["h1", "h2"] Store.empty.contents := documented_empty _
  have hends := ((hempty.ensures_ends flat_h1_h2 named_deleteNamed).post_of_reaches hrun).2
  rw [← spoiltStore] at hends
  generalize spoiltStore.contents = d at hends
  cases hends with
  | there _ _ hlocated => cases hlocated
  | unread hconcerns hunread =>
    obtain rfl := hconcerns
    cases hunread
  | bound _ hrewrote =>
    obtain rfl := Except.ok.inj hrewrote.read
    exact hrewrote

/-- The document of the task is there, although the list beside it cannot be read. -/
theorem located?_spoiltStore :
    located? spoiltStore.contents ["h1", "h2"] "web" =
      some ("h1", (deleteNamed.boundTo "h1").observedOn "h1") := by
  refine filed_spoiltStore.located?_eq_some_iff.mpr ⟨by decide, _, ?_, rfl⟩
  rw [rewrote_spoiltStore.task "h1" "web" (by decide), if_pos ⟨rfl, rfl⟩]

theorem located?_new_spoiltStore : located? spoiltStore.contents ["h1", "h2"] "new" = none := by
  rw [located?, List.findSome?_eq_none_iff]
  intro m hm
  have hother : ¬ (m = "h1" ∧ "new" = "web") := fun heq => absurd heq.2 (by decide)
  rw [rewrote_spoiltStore.task m "new" (flat_h1_h2 m hm), if_neg hother]
  rfl

theorem not_readable_deleteNamed : ¬ (boundManifest deleteNamed).Readable := fun h =>
  h "a\x7f" (by decide) '\x7f' (by decide) (by decide)

/-- The list of the first machine is lost, and the task cannot be unbound; on the second machine
another task is bound. -/
theorem lists_readable_spoiltStore :
    answer 0 (manifests "h1") spoiltStore = .error .badYaml ∧
      (∀ r u, Program.Reaches (serves False) (deleteTask ["h1", "h2"] "web").run spoiltStore
        (.done r) u → r ≠ .ok ()) ∧
      ∀ r u, Program.Reaches (serves False)
        (createTask ["h1", "h2"] "h2" { id := "new" }).run spoiltStore (.done r) u →
        r = .ok () := by
  obtain ⟨hrefused, hlost, -⟩ :=
    (lists_readable flat_h1_h2 (m := "h1") (by decide)).1 _ session_spoiltStore 0
  obtain ⟨-, -, hopen⟩ :=
    (lists_readable flat_h1_h2 (m := "h2") (by decide)).1 _ session_spoiltStore 0
  have hunread := hrefused "web" _ located?_spoiltStore not_readable_deleteNamed
  have hread : answer 0 (manifests "h2") spoiltStore = .ok [] :=
    (answer_manifests filed_spoiltStore.lasting 0 "h2").trans
      (rewrote_spoiltStore.other (by decide) (by decide)).1
  refine ⟨hunread, fun r u hrun => ?_, fun r u hrun => ?_⟩
  · exact (hlost _ hunread _ .refl).2 (.delete "web") r u trivial ⟨_, located?_spoiltStore⟩ hrun
  · rcases hopen _ hread (.create "h2" { id := "new" }) r u
      ⟨by decide, by decide, by decide⟩ rfl hrun with hok | ⟨t, existing, found, hop, hthere, -⟩
    · exact hok
    · obtain ⟨-, rfl⟩ := Operation.create.inj hop
      rw [located?_new_spoiltStore] at hthere
      cases hthere

/-- **A task may spoil the list of its machine.** -/
theorem lists_spoilt :
    ¬ ∀ (machines : List String) (s : Store), machines.Nodup → (∀ m ∈ machines, Flat m) →
      Session False machines (Named machines) s → ∀ m ∈ machines,
      ∃ list, answer 0 (manifests m) s = .ok list := by
  intro h
  obtain ⟨list, hread⟩ := h ["h1", "h2"] spoiltStore (by decide) flat_h1_h2 session_spoiltStore
    "h1" (by decide)
  rw [answer_manifests filed_spoiltStore.lasting, rewrote_spoiltStore.written,
    Manifest.decodeList_of_not_readable (List.mem_singleton_self _) not_readable_deleteNamed]
    at hread
  cases hread

end ControlPlane.Registry
