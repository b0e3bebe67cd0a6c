import ControlPlane.Proofs.Registry.Consistency
import ControlPlane.Proofs.Registry.Unbinding

/-!
# An unbinding can be made again

An unbinding writes the manifest list of a machine and then removes the task document. If a call
fails, the rest of them is not made. What is left then is the store as it was, or a task without a
manifest; either way the task document is still there, so that a second unbinding finds the task,
and a manifest list without a manifest of the task is no hindrance to it.

A call that fails has no effect, and it may fail with any error. A read may therefore fail with the
error that stands for absence, and the unbinding then goes on as if there were nothing: with another
machine, or with an empty manifest list. In the first case no task may be found. In the second case
the list is lost, but the call that failed was the only one that does, so the unbinding comes to its
end and reports success. It is not one that failed, and nothing is promised of it.

## Main definitions

* `Store.failsOnce`: a store of whose calls one may fail
* `Registry.Erased`: the values that an unbinding leaves

## Main results

* `Registry.Sound.ensures_erased`: an unbinding without failures
* `Registry.Sound.ensures_half`: what an unbinding that fails leaves
* `Registry.deleteTask_retried`
-/

namespace ControlPlane

namespace Store

/-- What a store may do of whose calls one may fail, with any error. The flag says that it has. -/
inductive FailsOnce (c : StoreCall) (x : Store × Bool) : Except Error c.Result → Store × Bool → Prop
  | performed (now : Moment) :
      FailsOnce c x (x.1.perform now c).1 ((x.1.perform now c).2, x.2)
  | failed (e : Error) (h : x.2 = false) : FailsOnce c x (.error e) (x.1, true)

/-- The answers of a store of whose calls one may fail. -/
def failsOnce : storeCalls.Steps (Store × Bool) := FailsOnce

end Store

namespace Registry

open Contents ControlPlane.Path Keys Store StoreWork

variable {machines : List String} {machine m id : String} {c d : Contents} {list : List Manifest}
  {s u v : Store} {b : Bool}

/-! ### Calls of which one may fail -/

/-- One call: what it leaves if it is carried out, and if it fails. -/
theorem ensures_call_once {call : StoreCall} {m : Except Error call.Result → Store → Prop}
    {post : Except Error call.Result → Store × Bool → Prop}
    (h : (StoreWork.call call).run.Ensures (serves False) (fun _ => True) m s)
    (hperformed : ∀ r t, m r t → post r (t, b))
    (hfailed : b = false → ∀ e, post (.error e) (s, true)) :
    (StoreWork.call call).run.Ensures failsOnce (fun _ => True) post (s, b) := by
  refine Program.ensures_ask.mpr ⟨trivial, ?_⟩
  rintro _ _ (⟨now⟩ | ⟨e, hb⟩)
  · exact ⟨trivial, hperformed _ _ ((Program.ensures_ask.mp h).2 _ _ (.performed now)).2⟩
  · exact ⟨trivial, hfailed hb e⟩

/-- Reading one key. If that is what fails, the key may seem to be absent. -/
theorem ensures_get_once {key : String} (h : s.contents.Lasting) :
    (StoreWork.call (.get key)).orNone.run.Ensures failsOnce (fun _ => True)
      (fun r x => x.1 = s ∧ (x.2 = b ∧ r = .ok ((s.contents.kept? key).map (·.toNode key)) ∨
        x.2 = true ∧ (r = .ok none ∨ ∃ e, r = .error e))) (s, b) := by
  refine Work.ensures_orNone.mpr (ensures_call_once
    (Work.ensures_orNone.mp (ensures_get h trivial)) ?_ ?_)
  · rintro r t ⟨rfl, hr | ⟨hfailing, -⟩⟩
    · exact ⟨rfl, .inl ⟨rfl, hr⟩⟩
    · exact hfailing.elim
  · rintro - e
    refine ⟨rfl, .inr ⟨rfl, ?_⟩⟩
    rw [Work.noneIfAbsent]
    split
    · exact .inl rfl
    · exact .inr ⟨e, rfl⟩

/-- What is found is there, whichever call fails. -/
theorem ensures_locate?_once (h : s.contents.Lasting) (id : String) (part : List String) :
    (locate? id part).run.Ensures failsOnce (fun _ => True)
      (fun r x => x.1 = s ∧ ∀ m t, r = .ok (some (m, t)) →
        m ∈ part ∧ ∃ t', taskOn? s.contents m id = some t' ∧ t = t'.observedOn m) (s, b) := by
  induction part generalizing b with
  | nil => exact ⟨trivial, rfl, fun _ _ hfound => by cases hfound⟩
  | cons m part ih =>
    have hrest : ∀ b, (locate? id part).run.Ensures failsOnce (fun _ => True)
        (fun r x => x.1 = s ∧ ∀ m' t, r = .ok (some (m', t)) →
          m' ∈ m :: part ∧ ∃ t', taskOn? s.contents m' id = some t' ∧ t = t'.observedOn m')
        (s, b) := by
      refine fun b => ih.mono fun r x _ hr => ⟨hr.1, fun m' t hfound => ?_⟩
      obtain ⟨hm', ht⟩ := hr.2 m' t hfound
      exact ⟨List.mem_cons_of_mem m hm', ht⟩
    refine Work.Ensures.bind (ensures_get_once h) ?_ ?_
    · rintro node ⟨t, b'⟩ - ⟨ht, hread⟩
      obtain rfl : s = t := ht.symm
      cases node with
      | none => exact hrest b'
      | some node =>
        rcases hread with ⟨-, hread⟩ | ⟨-, hread | ⟨e, hread⟩⟩
        · obtain ⟨e, hentry, rfl⟩ := Option.map_eq_some_iff.mp (Except.ok.inj hread).symm
          change (found m id e.value).run.Ensures _ _ _ _
          rw [found]
          cases ht : (Json.ofText? e.value).bind Task.read with
          | none => exact ⟨trivial, rfl, fun _ _ hfound => by cases hfound⟩
          | some t =>
            refine ⟨trivial, rfl, fun m' t' hfound => ?_⟩
            cases hfound
            exact ⟨List.mem_cons_self .., t, by rw [taskOn?, hentry]; exact ht, rfl⟩
        · cases hread
        · cases hread
    · exact fun e x _ hx => ⟨hx.1, fun _ _ hfound => by cases hfound⟩

/-- A manifest list is read, or the one call that may fail has failed. -/
theorem ensures_manifests_once (h : s.contents.Lasting) (machine : String) :
    (manifests machine).run.Ensures failsOnce (fun _ => True)
      (fun r x => x.1 = s ∧ (r = manifestsOn s.contents machine ∨
        x.2 = true ∧ (r = .ok [] ∨ ∃ e, r = .error e))) (s, b) := by
  refine Work.Ensures.bind (ensures_get_once h) ?_ ?_
  · rintro node ⟨t, b'⟩ - ⟨ht, hread⟩
    obtain rfl : s = t := ht.symm
    rcases hread with ⟨-, hread⟩ | ⟨hb, hread | ⟨e, hread⟩⟩
    · obtain rfl := Except.ok.inj hread
      rw [manifestsOn]
      cases s.contents.kept? (Keys.manifests machine) with
      | none => exact ⟨trivial, rfl, .inl rfl⟩
      | some e => exact ⟨trivial, rfl, .inl rfl⟩
    · obtain rfl := Except.ok.inj hread
      exact ⟨trivial, rfl, .inr ⟨hb, .inl rfl⟩⟩
    · cases hread
  · rintro e x - ⟨hx, ⟨-, hread⟩ | ⟨hb, -⟩⟩
    · cases hread
    · exact ⟨hx, .inr ⟨hb, .inr ⟨e, rfl⟩⟩⟩

theorem ensures_setManifests_once (h : s.contents.Lasting) (machine : String)
    (list : List Manifest) :
    (setManifests machine list).run.Ensures failsOnce (fun _ => True)
      (fun r x => (r = .ok () ∧ x.2 = b ∧
          s.contents.Wrote x.1.contents (Keys.manifests machine) (Manifest.encodeList list)) ∨
        b = false ∧ x.1 = s ∧ ∃ e, r = .error e) (s, b) := by
  have hset : (StoreWork.call (.set (Keys.manifests machine) (Manifest.encodeList list)
      none)).run.Ensures (serves False) (fun _ => True) (fun r t => (∃ n, r = .ok n) ∧
        s.contents.Wrote t.contents (Keys.manifests machine) (Manifest.encodeList list)) s :=
    ensures_set h trivial nofun fun t n hw => ⟨trivial, ⟨n, rfl⟩, hw⟩
  refine Work.ensures_bind.mpr (ensures_call_once hset ?_ ?_)
  · rintro r t ⟨⟨n, rfl⟩, hw⟩
    exact ⟨trivial, .inl ⟨rfl, rfl, hw⟩⟩
  · exact fun hb e => .inr ⟨hb, rfl, e, rfl⟩

/-- Removing a key that is there. -/
theorem ensures_delete_once {key : String} (h : s.contents.Lasting)
    (hkey : (s.contents.kept? key).isSome = true) :
    (StoreWork.call (.delete key true)).run.Ensures failsOnce (fun _ => True)
      (fun r x => r = .ok () ∨ b = false ∧ x.1 = s) (s, b) := by
  have hdelete : (StoreWork.call (.delete key true)).run.Ensures (serves False) (fun _ => True)
      (fun r _ => r = .ok ()) s :=
    ensures_delete_under h trivial hkey nofun fun _ _ => ⟨trivial, rfl⟩
  exact ensures_call_once hdelete (fun _ _ hr => .inl hr) fun hb _ => .inr ⟨hb, rfl⟩

/-! ### The two unbindings -/

/-- No task is found on a machine that it is not bound to. -/
theorem Sound.ensures_locate_once (h : Sound machines s.contents) (hm : machine ∈ machines)
    (hbound : (s.contents.kept? (Keys.task machine id)).isSome = true) :
    (locate machines id).run.Ensures failsOnce (fun _ => True)
      (fun r x => x.1 = s ∧ ∀ m t, r = .ok (m, t) → m = machine) (s, b) := by
  refine Work.Ensures.bind (ensures_locate?_once h.documented.lasting id machines) ?_
    fun e x _ hx => ⟨hx.1, nofun⟩
  rintro (_ | ⟨m, t⟩) ⟨u, b'⟩ - ⟨hu, hfound⟩
  · exact ⟨trivial, hu, nofun⟩
  · refine ⟨trivial, hu, fun m' t' hpair => ?_⟩
    cases hpair
    obtain ⟨hm', t'', ht'', -⟩ := hfound m t rfl
    exact h.documented.alone id m hm' machine hm (isSome_kept?_of_taskOn? ht'') hbound

/-- The manifest list of a machine without the manifests of an id is written. -/
abbrev Shortened (machine id : String) (list : List Manifest) (c d : Contents) : Prop :=
  c.Wrote d (Keys.manifests machine) (Manifest.encodeList (list.filter (·.id != id)))

/-- **What an unbinding leaves that fails at one of its calls:** the store as it was, or one on
which the manifest of the task is gone. -/
theorem Sound.ensures_half (h : Sound machines s.contents) (hflat : ∀ m ∈ machines, Flat m)
    (hm : machine ∈ machines) (hbound : (s.contents.kept? (Keys.task machine id)).isSome = true)
    (hlist : Listed s.contents machine list) :
    (deleteTask machines id).run.Ensures failsOnce (fun _ => True)
      (fun r x => ∀ e, r = .error e →
        x.1 = s ∨ Shortened machine id list s.contents x.1.contents) (s, false) := by
  have hlasting := h.documented.lasting
  refine Work.Ensures.bind (h.ensures_locate_once hm hbound) ?_ fun e x _ hx _ _ => .inl hx.1
  rintro ⟨m, t⟩ ⟨u, b⟩ - ⟨hu, hlocated⟩
  obtain rfl : s = u := hu.symm
  obtain rfl := hlocated m t rfl
  refine Work.Ensures.bind (ensures_manifests_once hlasting m) ?_ fun e x _ hx _ _ => .inl hx.1
  rintro current ⟨u, b⟩ - ⟨hu, hread⟩
  obtain rfl : s = u := hu.symm
  -- a list that was only thought to be absent is written by a store that fails no more
  have hcurrent : b = false → current = list := by
    rintro rfl
    rcases hread with hread | ⟨hb, -⟩
    · exact hlist.unique hread.symm
    · cases hb
  refine Work.Ensures.bind
    (ensures_setManifests_once hlasting m (current.filter (·.id != id))) ?_ ?_
  · rintro _ ⟨u, b'⟩ - (⟨-, hb, hw⟩ | ⟨-, -, e, he⟩)
    · obtain rfl : b = b' := hb.symm
      have hthere : (u.contents.kept? (Keys.task m id)).isSome = true := by
        rw [kept?_task_of_wrote (hflat m hm) (hflat m hm) hw]
        exact hbound
      refine (ensures_delete_once (hw.lasting hlasting) hthere).mono ?_
      rintro r x - (rfl | ⟨hb, hx⟩) e he
      · cases he
      · exact .inr (by rw [hx, ← hcurrent hb]; exact hw)
    · cases he
  · rintro e x - (⟨he, -⟩ | ⟨-, hx, -⟩) _ _
    · cases he
    · exact .inl hx

/-! ### What is left -/

/-- The values that unbinding a task leaves: its document is gone and its manifest is not in the
list any more. -/
def Erased (machine id : String) (list : List Manifest) (c d : Contents) : Prop :=
  ∀ key, (d.kept? key).map Entry.value =
    if key = Keys.task machine id then none
    else if key = Keys.manifests machine then
      some (Manifest.encodeList (list.filter (·.id != id)))
    else (c.kept? key).map Entry.value

theorem erased_of_dropped {b : Contents}
    (hw : Shortened machine id list c b) (hd : b.Dropped d (Keys.task machine id)) :
    Erased machine id list c d := by
  intro key
  rw [hd.kept?]
  split
  · rfl
  rw [hw.kept?]
  split
  · rfl
  · rfl

/-- **An unbinding without failures,** as what it leaves of every key. -/
theorem Sound.ensures_erased (h : Sound machines s.contents) (hflat : ∀ m ∈ machines, Flat m)
    (hm : machine ∈ machines) (hbound : (s.contents.kept? (Keys.task machine id)).isSome = true)
    (hlist : Listed s.contents machine list) :
    (deleteTask machines id).run.Ensures (serves False) (fun _ => True)
      (fun r v => r = .ok () ∧ Sound machines v.contents ∧
        Erased machine id list s.contents v.contents) s := by
  have hname := hflat machine hm
  have hlocated : ∀ m t, located? s.contents machines id = some (m, t) → m = machine := by
    intro m t hlocated
    obtain ⟨hm', t', ht', -⟩ := located?_eq_some hlocated
    exact h.documented.alone id m hm' machine hm (isSome_kept?_of_taskOn? ht') hbound
  refine ensures_deleteTask_under h.documented.filed hflat trivial nofun ?_ ?_ ?_
  · intro hmissing
    rw [located?_eq_none h.documented.filed hflat hmissing machine hm] at hbound
    cases hbound
  · intro m t e hfound hunread
    obtain rfl := hlocated m t hfound
    rw [hlist.read] at hunread
    cases hunread
  · intro m t u current hfound hread hw
    obtain rfl := hlocated m t hfound
    obtain rfl := hlist.unique hread
    have hu : Sound machines u.contents :=
      h.wrote_manifests hflat hm hw (hlist.filter _ hname hw)
    have hgone : ∀ x ∈ current.filter (·.id != id), x.id ≠ id := fun x hx =>
      bne_iff_ne.mp (List.mem_filter.mp hx).2
    refine ⟨trivial, nofun, fun v hv => ?_⟩
    have hdropped : u.contents.Dropped v.contents (Keys.task m id) := hv.dropped fun _ =>
      hu.documented.isUnder_task hname (h.documented.validId hname hbound)
    have hlast : Listed v.contents m (current.filter (·.id != id)) :=
      (hlist.filter _ hname hw).of_task hname hgone hdropped.frame
    exact ⟨trivial, rfl, hu.dropped_task hflat hm hlast hdropped, erased_of_dropped hw hdropped⟩

/-- The first half of an unbinding makes no difference to what the whole of it leaves. -/
theorem Erased.of_shortened {b : Contents} (h : Erased machine id (list.filter (·.id != id)) b d)
    (hw : Shortened machine id list c b) : Erased machine id list c d := by
  intro key
  rw [h key, List.filter_filter]
  simp only [Bool.and_self]
  split
  · rfl
  split
  · rfl
  · rename_i hne
    rw [hw.frame key hne]

theorem Erased.setsTask (h : Erased machine id list c d) (hmachine : Flat machine) :
    SetsTask machine id none c d := by
  have hread : ∀ (c : Contents) m j, taskOn? c m j =
      ((c.kept? (Keys.task m j)).map Entry.value).bind
        fun text => (Json.ofText? text).bind Task.read := by
    intro c m j
    rw [taskOn?, Option.bind_map]
    rfl
  intro m j hm
  rw [hread d, hread c, h, if_neg (task_ne_manifests hm hmachine)]
  by_cases heq : m = machine ∧ j = id
  · rw [if_pos heq, if_pos ((task_inj hm hmachine).mpr heq)]
    rfl
  · rw [if_neg heq, if_neg (mt (task_inj hm hmachine).mp heq)]

/-- Every other task is located where it was. -/
theorem SetsTask.located?_iff {j : String} {t : Task} (h : SetsTask machine id none c d)
    (hc : Filed machines c) (hd : Filed machines d) (hflat : ∀ m ∈ machines, Flat m) :
    located? d machines j = some (m, t) ↔
      located? c machines j = some (m, t) ∧ ¬ (m = machine ∧ j = id) := by
  rw [hc.located?_eq_some_iff, hd.located?_eq_some_iff, and_assoc]
  refine and_congr_right fun hm => ?_
  rw [h m j (hflat m hm)]
  split
  · rename_i heq
    exact ⟨nofun, fun hnot => absurd heq hnot.2⟩
  · rename_i hne
    exact (and_iff_left hne).symm

/-- The manifest lists that are left are those that there were, without the manifests of the id. -/
theorem Erased.manifestsOn (h : Erased machine id list c d) (hc : Sound machines c)
    (hflat : ∀ m ∈ machines, Flat m) (hmachine : machine ∈ machines)
    (hbound : (c.kept? (Keys.task machine id)).isSome = true) (hlist : Listed c machine list)
    (hm : m ∈ machines) :
    ∃ before, manifestsOn c m = .ok before ∧
      manifestsOn d m = .ok (before.filter (·.id != id)) := by
  have hread : ∀ c : Contents, Registry.manifestsOn c m =
      ((c.kept? (Keys.manifests m)).map Entry.value).elim (.ok []) Manifest.decodeList := by
    intro c
    rw [Registry.manifestsOn]
    cases c.kept? (Keys.manifests m) with
    | none => rfl
    | some e => rfl
  have hflatm := hflat m hm
  rw [hread d, h, if_neg (task_ne_manifests (hflat machine hmachine) hflatm).symm]
  by_cases heq : m = machine
  · subst heq
    refine ⟨list, hlist.read, ?_⟩
    rw [if_pos rfl]
    exact Manifest.decodeList_encodeList fun x hx => hlist.clean x (List.mem_of_mem_filter hx)
  · obtain ⟨other, hother⟩ := hc.listed m hm
    refine ⟨other, hother.read, ?_⟩
    have hnone : other.filter (·.id != id) = other := by
      refine List.filter_eq_self.mpr fun x hx => bne_iff_ne.mpr ?_
      rintro rfl
      exact heq (hc.documented.alone _ m hm machine hmachine (hother.kept?_isSome hx) hbound)
    rw [if_neg (mt (manifests_inj hflatm (hflat machine hmachine)).mp heq), ← hread c,
      hother.read, hnone]

/-- **An unbinding can be made again.** On a store that was filled by binding and unbinding tasks,
let the unbinding of a task that is bound fail at one of its calls, whichever it is and with
whatever error. Then an unbinding without failures succeeds and leaves the keys and values that it
would have left in the first place; the task is not found any more, every other task is found as it
was before, and so is every manifest but that of the task. -/
theorem deleteTask_retried {failing : Prop} {e : Error} {x : Store × Bool}
    (hflat : ∀ m ∈ machines, Flat m)
    (hs : Session failing machines (Legible machines) s) (hm : machine ∈ machines)
    (hbound : (s.contents.kept? (Keys.task machine id)).isSome = true)
    (first : Program.Reaches failsOnce (deleteTask machines id).run (s, false) (.done (.error e))
      x) :
    (∃ r v, Program.Reaches (serves False) (deleteTask machines id).run x.1 (.done r) v) ∧
    ∀ r v, Program.Reaches (serves False) (deleteTask machines id).run x.1 (.done r) v →
      r = .ok () ∧
      (∀ r' w, Program.Reaches (serves False) (deleteTask machines id).run s (.done r') w →
        r' = .ok () ∧
          ∀ key, (v.contents.kept? key).map Entry.value = (w.contents.kept? key).map Entry.value) ∧
      ∀ now, answer now (task machines id) v = .error (.taskNotFound id) ∧
        (∀ j, j ≠ id → answer now (task machines j) v = answer now (task machines j) s) ∧
        ∀ m ∈ machines, ∃ list, answer now (manifests m) s = .ok list ∧
          answer now (manifests m) v = .ok (list.filter (·.id != id)) := by
  have hsound := (hs.sound hflat).1
  have hname := hflat machine hm
  obtain ⟨list, hlist⟩ := hsound.listed machine hm
  have hagain : (deleteTask machines id).run.Ensures (serves False) (fun _ => True)
      (fun r v => r = .ok () ∧ Sound machines v.contents ∧
        Erased machine id list s.contents v.contents) x.1 := by
    obtain hx | hw :=
      (hsound.ensures_half hflat hm hbound hlist).post_of_reaches first e rfl
    · rw [hx]
      exact hsound.ensures_erased hflat hm hbound hlist
    · have hshort : Listed x.1.contents machine (list.filter (·.id != id)) :=
        hlist.filter _ hname hw
      have hthere : (x.1.contents.kept? (Keys.task machine id)).isSome = true := by
        rw [kept?_task_of_wrote hname hname hw]
        exact hbound
      refine ((hsound.wrote_manifests hflat hm hw hshort).ensures_erased hflat hm hthere
        hshort).mono fun r v _ hv => ?_
      exact ⟨hv.1, hv.2.1, hv.2.2.of_shortened hw⟩
  refine ⟨⟨_, _, .of_run (fun _ _ => .performed 0) _ x.1⟩, fun r v second => ?_⟩
  obtain ⟨hr, hv, herased⟩ := hagain.post_of_reaches second
  refine ⟨hr, fun r' w single => ?_, fun now => ?_⟩
  · obtain ⟨hr', -, hsingle⟩ :=
      (hsound.ensures_erased hflat hm hbound hlist).post_of_reaches single
    exact ⟨hr', fun key => (herased key).trans (hsingle key).symm⟩
  have hsets := herased.setsTask hname
  have hfiled := hsound.documented.filed
  have hfiled' := hv.documented.filed
  refine ⟨?_, fun j hj => ?_, fun m hm' => ?_⟩
  · have hnone : located? v.contents machines id = none := by
      refine Option.eq_none_iff_forall_ne_some.mpr ?_
      rintro ⟨m, t⟩ hfound
      obtain ⟨hbefore, hne⟩ := (hsets.located?_iff hfiled hfiled' hflat).mp hfound
      obtain ⟨hm', t', ht', -⟩ := located?_eq_some hbefore
      exact hne ⟨hfiled.alone id m hm' machine hm (isSome_kept?_of_taskOn? ht') hbound, rfl⟩
    rw [answer_task hfiled' hflat, hnone]
    rfl
  · have hsame : located? v.contents machines j = located? s.contents machines j := by
      refine Option.ext fun x => ?_
      rw [hsets.located?_iff hfiled hfiled' hflat]
      exact and_iff_left fun heq => hj heq.2
    rw [answer_task hfiled' hflat, answer_task hfiled hflat, hsame]
  · obtain ⟨before, hbefore, hafter⟩ := herased.manifestsOn hsound hflat hm hbound hlist hm'
    rw [answer_manifests hfiled.lasting, answer_manifests hfiled'.lasting]
    exact ⟨before, hbefore, hafter⟩

/-- A store with one task on one machine. -/
def oneTask : Store :=
  ((Operation.create "h1" { id := "web" }).work ["h1"]).run.run (fun c s => s.perform 0 c) .empty
    |>.2

/-- A store of which the first removal fails. Everything before it is carried out, so a deletion
ends with its task still there. -/
def failingDelete (c : StoreCall) (x : Store × Bool) : Except Error c.Result × (Store × Bool) :=
  match c, x.2 with
  | .delete .., false => (.error (.store "unavailable"), (x.1, true))
  | c, _ => ((x.1.perform 0 c).1, ((x.1.perform 0 c).2, x.2))

/-- What is left if the removal of the document fails. -/
def halfDeleted : Except Error Unit × (Store × Bool) :=
  (deleteTask ["h1"] "web").run.run failingDelete (oneTask, false)

/-- The manifest is gone and the document is there, and the second unbinding takes it away. -/
theorem deleteTask_retried_oneTask :
    halfDeleted.1 = .error (.store "unavailable") ∧
      manifestsOn halfDeleted.2.1.contents "h1" = .ok [] ∧
      (halfDeleted.2.1.contents.kept? (Keys.task "h1" "web")).isSome = true ∧
      ∃ v, Program.Reaches (serves False) (deleteTask ["h1"] "web").run halfDeleted.2.1
        (.done (.ok ())) v ∧ answer 0 (task ["h1"] "web") v = .error (.taskNotFound "web") := by
  have hflat : ∀ m ∈ ["h1"], Flat m := by decide
  have hlegible : Legible ["h1"] (.create "h1" { id := "web" }) :=
    ⟨by decide, ⟨by decide, by decide⟩, ⟨by decide, fun _ h => by cases h⟩⟩
  have hsession : Session False ["h1"] (Legible ["h1"]) oneTask :=
    .operation .empty hlegible (.of_run (fun _ _ => .performed 0) _ _)
  have hfails : ∀ c x, failsOnce c x (failingDelete c x).1 (failingDelete c x).2 := by
    rintro c ⟨s, b⟩
    cases c with
    | delete =>
      cases b with
      | false => exact .failed _ rfl
      | true => exact .performed 0
    | _ => exact .performed 0
  have hfirst : Program.Reaches failsOnce (deleteTask ["h1"] "web").run (oneTask, false)
      (.done halfDeleted.1) halfDeleted.2 := .of_run hfails _ _
  have hhalf : halfDeleted.1 = .error (.store "unavailable") ∧
      manifestsOn halfDeleted.2.1.contents "h1" = .ok [] ∧
      (halfDeleted.2.1.contents.kept? (Keys.task "h1" "web")).isSome = true := by
    decide +kernel
  rw [hhalf.1] at hfirst
  obtain ⟨⟨r, v, hsecond⟩, hretried⟩ :=
    deleteTask_retried hflat hsession (List.mem_singleton_self _)
    (by decide +kernel) hfirst
  obtain ⟨rfl, -, hanswers⟩ := hretried r v hsecond
  exact ⟨hhalf.1, hhalf.2.1, hhalf.2.2, v, hsecond, (hanswers 0).1⟩

end Registry

end ControlPlane
