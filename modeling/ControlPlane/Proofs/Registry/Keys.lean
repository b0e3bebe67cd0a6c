import ControlPlane.Proofs.Text.Pieces
import ControlPlane.Registry.Keys
import ControlPlane.Store.Path
import Mathlib.Data.List.Basic

/-!
# The layout keeps documents apart

Keys are built by joining names with slashes, so they determine the names as long as no name
contains a slash itself. An id must not be empty either: the document of the empty id would have the
key of the directory with a slash behind it, and removing it would remove the whole directory. In
general what lies under a task are the tasks of the machine whose ids go on behind its id.

## Main definitions

* `Path.Flat`: a name without a slash
* `Keys.ValidId`: an id that names one document
* `Keys.InRegistry`: what the keys of documents begin with
* `Keys.Below`: an id whose document lies under that of another id

## Main results

* `Keys.task_inj`, `Keys.manifests_inj`, `Keys.controller_inj`, `Keys.task_ne_manifests`,
  `Keys.task_ne_controller`, `Keys.manifests_ne_controller`: no two documents share a key
* `Keys.event_append_ne`: nor does an event share one with a document
* `Keys.isUnder_task_task_iff`, `Keys.isUnder_task_manifests`, `Keys.isUnder_task_controller`: what
  lies under a task, which is nothing if the ids are valid
* `Keys.isUnder_tasksDir_iff`, `Keys.isUnder_controllersDir_iff`: what lies in the directory of a
  machine and in that of the controllers
-/

namespace ControlPlane

/-- A name without a slash. As part of a path it is one part and not several. -/
def Path.Flat (name : String) : Prop := ∀ c ∈ name.toList, c ≠ '/'

-- The instance goes through the text; instance search might go through all characters instead.
instance (name : String) : Decidable (Path.Flat name) :=
  List.decidableBAll (fun c => c ≠ '/') name.toList

namespace Keys

open ControlPlane.Path

/-- An id that names one document, directly under the directory. The empty id would name the
directory itself, with a slash behind it. -/
structure ValidId (id : String) : Prop where
  nonempty : id ≠ ""
  flat : Flat id

variable {m m' id id' : String}

/-- The first slash tells a flat name from what follows it. -/
theorem append_slash_inj {a b x y : List Char} (ha : ∀ c ∈ a, c ≠ '/') (hb : ∀ c ∈ b, c ≠ '/') :
    a ++ '/' :: x = b ++ '/' :: y ↔ a = b ∧ x = y := by
  constructor
  · intro h
    induction a generalizing b with
    | nil =>
      cases b with
      | nil => simpa using h
      | cons d b => exact absurd (List.cons.inj h).1.symm (hb d (List.mem_cons_self ..))
    | cons c a ih =>
      cases b with
      | nil => exact absurd (List.cons.inj h).1 (ha c (List.mem_cons_self ..))
      | cons d b =>
        obtain ⟨rfl, hrest⟩ := List.cons.inj h
        have hcut := ih (fun e he => ha e (List.mem_cons_of_mem _ he))
          (fun e he => hb e (List.mem_cons_of_mem _ he)) hrest
        exact ⟨congrArg (c :: ·) hcut.1, hcut.2⟩
  · rintro ⟨rfl, rfl⟩
    rfl

/-! ### Keys as texts -/

/-- What every key of a machine begins with. -/
def lead : List Char := "/registry/hosts/".toList

/-- The part of a key that stands for the tasks of a machine. -/
def tasksPart : List Char := ['t', 'a', 's', 'k', 's']

/-- The part of a key that stands for the manifest list of a machine. -/
def manifestsPart : List Char := ['k', 'u', 'b', 'e', 'l', 'e', 't']

theorem toList_of_lead (m name : String) {part : List Char} (h : name.toList = part) :
    ("/registry/hosts/" ++ m ++ name).toList = lead ++ (m.toList ++ part) :=
  calc ("/registry/hosts/" ++ m ++ name).toList
    _ = ("/registry/hosts/" ++ m).toList ++ name.toList := String.toList_append
    _ = (lead ++ m.toList) ++ part := congr (congrArg _ String.toList_append) h
    _ = lead ++ (m.toList ++ part) := List.append_assoc ..

theorem toList_tasksDir (m : String) :
    (tasksDir m).toList = lead ++ (m.toList ++ '/' :: tasksPart) :=
  toList_of_lead m "/tasks" (by decide)

theorem toList_task (m id : String) :
    (task m id).toList = lead ++ (m.toList ++ '/' :: (tasksPart ++ '/' :: id.toList)) := by
  have hslash : "/".toList = ['/'] := by decide
  rw [task, String.toList_append, String.toList_append, hslash, toList_tasksDir]
  simp only [List.append_assoc, List.cons_append, List.nil_append]

theorem toList_manifests (m : String) :
    (manifests m).toList = lead ++ (m.toList ++ '/' :: manifestsPart) :=
  toList_of_lead m "/kubelet" (by decide)

/-- What every key of a controller begins with. -/
def controllersLead : List Char := "/registry/controllers/".toList

theorem toList_controller (id : String) :
    (controller id).toList = controllersLead ++ id.toList := by
  rw [controller, String.toList_append, String.toList_append]
  congr 1

/-- The keys of machines and those of controllers part before the first name. -/
theorem lead_append_ne (x y : List Char) : lead ++ x ≠ controllersLead ++ y := by
  intro h
  have htake := congrArg (List.take 11) h
  rw [List.take_append_of_le_length (by decide), List.take_append_of_le_length (by decide)]
    at htake
  exact absurd htake (by decide)

theorem dirLead_controllersDir : dirLead controllersDir = controllersLead := by
  decide

theorem dirLead_tasksDir (m : String) :
    dirLead (tasksDir m) = lead ++ (m.toList ++ '/' :: (tasksPart ++ ['/'])) := by
  rw [dirLead, trimEnd, toList_tasksDir]
  simp [tasksPart]

/-- What the keys of events begin with. Nothing is known of the rest, since a container may have any
name. -/
theorem dirLead_eventsDir (container : String) :
    ∃ rest, dirLead (eventsDir container) = "/events".toList ++ '/' :: rest := by
  obtain ⟨tail, htail, hcontainer⟩ := exists_eq_trimEnd_append '/' container.toList
  have hlast := getLast?_trimEnd_ne '/' container.toList
  have hslash : "/events/".toList = "/events".toList ++ ['/'] := by decide
  rw [dirLead, eventsDir, String.toList_append, hslash]
  generalize trimEnd '/' container.toList = base at *
  by_cases hbase : base = []
  · rw [hcontainer, hbase, List.nil_append, List.append_assoc, List.singleton_append,
      trimEnd_append (by simpa using htail) (by decide)]
    exact ⟨[], rfl⟩
  · rw [← List.getLast?_append_of_ne_nil ("/events".toList ++ ['/']) hbase] at hlast
    rw [hcontainer, ← List.append_assoc, trimEnd_append htail hlast]
    exact ⟨base ++ ['/'], by simp⟩

/-- What the keys of documents begin with, and those of events do not. -/
def InRegistry (key : List Char) : Prop := key.take 2 = ['/', 'r']

theorem inRegistry_lead (rest : List Char) : InRegistry (lead ++ rest) := by
  rw [InRegistry, List.take_append_of_le_length (by decide)]
  decide

theorem inRegistry_controllersLead (rest : List Char) : InRegistry (controllersLead ++ rest) := by
  rw [InRegistry, List.take_append_of_le_length (by decide)]
  decide

/-- No event has the key of a document: already the first part of the path is another one. -/
theorem event_append_ne (container : String) (name : List Char) {key : List Char}
    (hkey : InRegistry key) : dirLead (eventsDir container) ++ name ≠ key := by
  rintro rfl
  obtain ⟨tail, htail⟩ := dirLead_eventsDir container
  rw [InRegistry, htail, List.append_assoc, List.take_append_of_le_length (by decide)] at hkey
  exact absurd hkey (by decide)

/-! ### What goes on behind what -/

/-- A key that lies under a directory goes on behind the lead of the directory. -/
theorem isChild_iff {lead : List Char} {key : String} {recursive : Bool} :
    isChild lead key recursive = true ↔
      ∃ rest, key.toList = lead ++ rest ∧
        (!rest.isEmpty && (recursive || !rest.contains '/')) = true := by
  rw [isChild]
  constructor
  · intro h
    split at h
    · rename_i rest hrest
      exact ⟨rest, afterLead?_eq_some_iff.mp hrest, h⟩
    · exact absurd h Bool.false_ne_true
  · rintro ⟨rest, hkey, hrest⟩
    rw [hkey, afterLead?_append]
    exact hrest

theorem isUnder_iff {dir key : String} {recursive : Bool} :
    isUnder dir key recursive = true ↔
      ∃ rest, key.toList = dirLead dir ++ rest ∧
        (!rest.isEmpty && (recursive || !rest.contains '/')) = true :=
  isChild_iff

/-- What the ids begin with whose documents lie under the document of an id: the id without the
slashes at its end, and one slash, unless nothing is left of the id. -/
def idLead (id : String) : List Char :=
  if trimEnd '/' id.toList = [] then [] else trimEnd '/' id.toList ++ ['/']

/-- The id goes on behind another one, as a path goes on behind a directory. Behind an id of slashes
alone, and behind the empty id, everything but the empty id does. -/
def Below (id id' : String) : Prop := ∃ rest, rest ≠ [] ∧ id'.toList = idLead id ++ rest

theorem isChild_idLead_iff : isChild (idLead id) id' true = true ↔ Below id id' := by
  rw [isChild_iff]
  exact exists_congr fun rest => by simp [and_comm]

instance (id id' : String) : Decidable (Below id id') := decidable_of_iff _ isChild_idLead_iff

theorem dirLead_task (m id : String) : dirLead (task m id) = dirLead (tasksDir m) ++ idLead id := by
  obtain ⟨tail, htail, hid⟩ := exists_eq_trimEnd_append '/' id.toList
  have hlast := getLast?_trimEnd_ne '/' id.toList
  rw [dirLead, dirLead_tasksDir, toList_task, idLead]
  generalize trimEnd '/' id.toList = base at *
  by_cases hbase : base = []
  · -- the slashes of the id are at the end of the key, and the one before them is as well
    have hkey : lead ++ (m.toList ++ '/' :: (tasksPart ++ '/' :: id.toList)) =
        lead ++ (m.toList ++ '/' :: tasksPart) ++ '/' :: tail := by
      simp [hid, hbase]
    rw [if_pos hbase, hkey, trimEnd_append (by simpa using htail) (by simp [tasksPart])]
    simp
  · have hkey : lead ++ (m.toList ++ '/' :: (tasksPart ++ '/' :: id.toList)) =
        (lead ++ (m.toList ++ '/' :: (tasksPart ++ ['/']))) ++ base ++ tail := by
      simp [hid]
    rw [← List.getLast?_append_of_ne_nil (lead ++ (m.toList ++ '/' :: (tasksPart ++ ['/']))) hbase]
      at hlast
    rw [if_neg hbase, hkey, trimEnd_append htail hlast, List.append_assoc]

/-- A flat id goes on behind no other one, unless nothing is left of that one. -/
theorem not_below_of_flat (hid : trimEnd '/' id.toList ≠ []) (hid' : Flat id') :
    ¬ Below id id' := by
  rintro ⟨rest, -, hrest⟩
  refine hid' '/' ?_ rfl
  rw [hrest, idLead, if_neg hid]
  simp

theorem ValidId.trimEnd_eq (h : ValidId id) : trimEnd '/' id.toList = id.toList :=
  trimEnd_eq_self fun heq => h.flat '/' (List.mem_of_getLast? heq) rfl

theorem ValidId.trimEnd_ne_nil (h : ValidId id) : trimEnd '/' id.toList ≠ [] := by
  simpa [h.trimEnd_eq] using h.nonempty

/-! ### No two documents share a key -/

theorem task_inj (hm : Flat m) (hm' : Flat m') : task m id = task m' id' ↔ m = m' ∧ id = id' := by
  rw [← String.toList_inj, toList_task, toList_task, List.append_cancel_left_eq,
    append_slash_inj hm hm', List.append_cancel_left_eq, List.cons_inj_right, String.toList_inj,
    String.toList_inj]

theorem manifests_inj (hm : Flat m) (hm' : Flat m') : manifests m = manifests m' ↔ m = m' := by
  rw [← String.toList_inj, toList_manifests, toList_manifests, List.append_cancel_left_eq,
    append_slash_inj hm hm', String.toList_inj]
  exact and_iff_left rfl

theorem task_ne_manifests (hm : Flat m) (hm' : Flat m') : task m id ≠ manifests m' := by
  rw [ne_eq, ← String.toList_inj, toList_task, toList_manifests, List.append_cancel_left_eq,
    append_slash_inj hm hm']
  rintro ⟨-, h⟩
  exact absurd (List.cons.inj h).1 (by decide)

theorem controller_inj : controller id = controller id' ↔ id = id' := by
  rw [← String.toList_inj, toList_controller, toList_controller, List.append_cancel_left_eq,
    String.toList_inj]

theorem task_ne_controller : task m id ≠ controller id' := by
  rw [ne_eq, ← String.toList_inj, toList_task, toList_controller]
  exact lead_append_ne _ _

theorem manifests_ne_controller : manifests m ≠ controller id := by
  rw [ne_eq, ← String.toList_inj, toList_manifests, toList_controller]
  exact lead_append_ne _ _

/-! ### What lies under what -/

/-- **What lies under a task:** the tasks of its machine whose ids go on behind its id. -/
theorem isUnder_task_task_iff (hm : Flat m) (hm' : Flat m') :
    isUnder (task m id) (task m' id') true = true ↔ m' = m ∧ Below id id' := by
  rw [isUnder_iff, dirLead_task, dirLead_tasksDir, toList_task]
  simp only [List.append_assoc, List.cons_append, List.nil_append]
  simp only [List.append_cancel_left_eq, append_slash_inj hm' hm, List.cons_inj_right,
    String.toList_inj]
  constructor
  · rintro ⟨rest, ⟨hname, hid⟩, hrest⟩
    exact ⟨hname, rest, by simpa using hrest, hid⟩
  · rintro ⟨hname, rest, hrest, hid⟩
    exact ⟨rest, ⟨hname, hid⟩, by simpa using hrest⟩

theorem isUnder_task_manifests (hm : Flat m) (hm' : Flat m') (id : String) (recursive : Bool) :
    isUnder (task m id) (manifests m') recursive = false := by
  rw [Bool.eq_false_iff]
  intro h
  obtain ⟨rest, hkey, -⟩ := isUnder_iff.mp h
  rw [dirLead_task, dirLead_tasksDir, toList_manifests] at hkey
  simp only [List.append_assoc, List.cons_append, List.nil_append] at hkey
  rw [List.append_cancel_left_eq, append_slash_inj hm' hm] at hkey
  exact absurd (List.cons.inj hkey.2).1 (by decide)

/-- **What lies directly in a directory** whose documents have keys that go on with their ids behind
the lead of the directory: those with valid ids, and nothing else. -/
theorem isUnder_iff_exists_validId {dir : String} {keyOf : String → String}
    (hkeyOf : ∀ id, (keyOf id).toList = dirLead dir ++ id.toList) {key : String} :
    isUnder dir key false = true ↔ ∃ id, ValidId id ∧ key = keyOf id := by
  have hkey : ∀ rest, key.toList = dirLead dir ++ rest ↔ key = keyOf (String.ofList rest) := by
    intro rest
    rw [← String.toList_inj, hkeyOf, String.toList_ofList]
  rw [isUnder_iff]
  constructor
  · rintro ⟨rest, hrest, hname⟩
    rw [Bool.false_or, Bool.and_eq_true, Bool.not_eq_true', Bool.not_eq_true',
      List.contains_eq_mem, decide_eq_false_iff_not, List.isEmpty_eq_false_iff] at hname
    refine ⟨String.ofList rest, ⟨?_, fun c hc heq => ?_⟩, (hkey rest).mp hrest⟩
    · rw [ne_eq, ← String.toList_inj, String.toList_ofList]
      exact hname.1
    · rw [String.toList_ofList] at hc
      exact hname.2 (heq ▸ hc)
  · rintro ⟨id, hid, rfl⟩
    have hflat : '/' ∉ id.toList := fun h => hid.flat '/' h rfl
    exact ⟨id.toList, hkeyOf id, by simp [hflat, hid.nonempty]⟩

/-- In the directory of a machine there are its tasks. -/
theorem isUnder_tasksDir_iff {key : String} :
    isUnder (tasksDir m) key false = true ↔ ∃ id, ValidId id ∧ key = task m id :=
  isUnder_iff_exists_validId fun id => by
    rw [dirLead_tasksDir, toList_task]
    simp only [List.append_assoc, List.cons_append, List.nil_append]

/-- In the directory of the controllers there are the controllers. -/
theorem isUnder_controllersDir_iff {key : String} :
    isUnder controllersDir key false = true ↔ ∃ id, ValidId id ∧ key = controller id :=
  isUnder_iff_exists_validId fun id => by
    rw [dirLead_controllersDir, toList_controller]

/-- No controller lies where the keys of machines are. -/
theorem isUnder_machine_controller {dir : String} (hdir : ∃ x, dirLead dir = lead ++ x)
    (id : String) (recursive : Bool) : isUnder dir (controller id) recursive = false := by
  rw [Bool.eq_false_iff]
  intro h
  obtain ⟨x, hdir⟩ := hdir
  obtain ⟨rest, hkey, -⟩ := isUnder_iff.mp h
  rw [hdir, toList_controller, List.append_assoc] at hkey
  exact lead_append_ne _ _ hkey.symm

theorem isUnder_task_controller (recursive : Bool) :
    isUnder (task m id) (controller id') recursive = false := by
  refine isUnder_machine_controller ?_ id' recursive
  rw [dirLead_task, dirLead_tasksDir, List.append_assoc]
  exact ⟨_, rfl⟩

end Keys

end ControlPlane
