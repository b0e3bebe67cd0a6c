import ControlPlane.Json.Reader
import ControlPlane.Proofs.Json.Reading
import ControlPlane.Proofs.KeyMap
import ControlPlane.Proofs.Manifest
import ControlPlane.Proofs.Text.Pieces
import ControlPlane.Task
import Mathlib.Data.List.Infix

/-!
# Tasks are read as they were written

The stored text of a task is read as that task, whatever its texts and labels are.

What else is asked of a task is whether a selector selects it, which is a matter of its labels, and
whether it has ended, which its status tells with one word among others. Both tests are
characterised here by what they look for, and what is shown of listed tasks does not mention how
they are made.

## Main definitions

* `Labels.Within`: one set of pairs is part of another
* `Task.HasEnded`: the status says that the task has ended

## Main results

* `Task.read_toJson`: the document of a task
* `Task.read_encode`: its stored text
* `Labels.selectedBy_iff`: which labels a selector selects
* `Task.isTerminated_iff`: which tasks count as ended
-/

namespace ControlPlane

open Format Json

theorem Json.textMap?_ofTextMap (m : KeyMap String) : textMap? (ofTextMap m) = some m := by
  rw [textMap?, ofTextMap, members?_record, Option.bind_eq_bind, Option.bind_some,
    mapM_map_eq_pure id, List.map_id]
  · exact congrArg some (KeyMap.ofList_entries m)
  · exact fun _ _ => rfl

theorem RestartPolicy.word?_word (p : RestartPolicy) :
    Json.word? RestartPolicy.words (.ofString p.word) = some p := by
  cases p <;> rfl

/-- A field of a written record, read from the record itself. -/
theorem Json.field_eq_of_mem {α : Type} {fs : List (String × Json)} {name : String} {j : Json}
    {a : α}
    {read : Json → Option α} {default : α} (hnames : (fs.map Prod.fst).Nodup)
    (hmem : (name, j) ∈ fs) (h : read j = pure a) : field fs name read default = pure a := by
  have hfield : field (fs.map fun f => (f.1, id f.2)) name read default = pure a :=
    field_form hnames hmem h
  have hid : fs.map (fun f => (f.1, id f.2)) = fs := List.map_id' fs
  rwa [hid] at hfield

theorem Json.fields_record (names : List String) (fs : List (String × Json)) :
    fields names (record fs) = (pure fs : Option _) :=
  members?_record fs

theorem TaskState.read_toJson (s : TaskState) : TaskState.read s.toJson = pure s := by
  rw [TaskState.read, TaskState.toJson, fields_record, pure_bind,
    field_eq_of_mem (by simp) (by simp) (Manifest.read_form shows_json s.manifest), pure_bind,
    field_eq_of_mem (by simp) (by simp) (RestartPolicy.word?_word s.restartPolicy), pure_bind,
    field_eq_of_mem (by simp) (by simp) (shows_json.text s.host), pure_bind,
    field_eq_of_mem (by simp) (by simp) (shows_json.text s.status), pure_bind]

/-- **A task is read from its document,** whatever machines it bears. -/
theorem Task.read_toJson (t : Task) : Task.read t.toJson = pure t := by
  rw [Task.read, Task.toJson, fields_record, pure_bind,
    field_eq_of_mem (by simp) (by simp) (shows_json.text t.id), pure_bind,
    field_eq_of_mem (by simp) (by simp) (textMap?_ofTextMap t.labels), pure_bind,
    field_eq_of_mem (by simp) (by simp) (TaskState.read_toJson t.desiredState), pure_bind,
    field_eq_of_mem (by simp) (by simp) (TaskState.read_toJson t.currentState), pure_bind]

/-! ### Stored texts -/

/-- Documents with texts and names of any kind. Nothing more is needed for reading them as JSON. -/
abbrev Json.AnyPlain : Json → Prop := Plain (fun _ => True) fun _ => True

theorem Manifest.all_true (x : Manifest) : x.All fun _ => True where
  id := trivial
  containers _ _ :=
    { name := trivial, image := trivial, command := trivial, workingDir := trivial
      env := fun _ _ => ⟨trivial, trivial⟩
      volumeMounts := fun _ _ => ⟨trivial, trivial⟩ }

theorem TaskState.plain_toJson (s : TaskState) : AnyPlain s.toJson := by
  have hmanifest : AnyPlain s.manifest.toJson :=
    Manifest.plain_toJson (fun _ _ => trivial) s.manifest.all_true
  refine .record (fun _ _ => trivial) ?_
  simp [Plain.text, hmanifest]

theorem Json.plain_ofTextMap (m : KeyMap String) : AnyPlain (ofTextMap m) := by
  refine .record (fun _ _ => trivial) fun f hf => ?_
  obtain ⟨entry, -, rfl⟩ := List.mem_map.mp hf
  exact .text trivial

theorem Task.plain_toJson (t : Task) : AnyPlain t.toJson := by
  refine .record (fun _ _ => trivial) ?_
  simp [Plain.text, plain_ofTextMap, TaskState.plain_toJson]

/-- **A task is read from its stored text,** so it comes back as it was bound. -/
theorem Task.read_encode (t : Task) : (Json.ofText? t.encode).bind Task.read = some t := by
  rw [Task.encode, ofText?_toText t.plain_toJson, Option.bind_some, Task.read_toJson]
  rfl

/-! ### Selectors -/

/-- Every pair of the labels is one of the others. -/
def Labels.Within (labels others : Labels) : Prop :=
  ∀ key value, labels.get? key = some value → others.get? key = some value

/-- **A selector selects the labels that contain all its pairs,** whatever else there is in them. -/
theorem Labels.selectedBy_iff {labels selector : Labels} :
    labels.selectedBy selector = true ↔ selector.Within labels := by
  rw [selectedBy, List.all_eq_true]
  constructor
  · intro h key value hpair
    exact beq_iff_eq.mp (h (key, value) (KeyMap.get?_eq_some_iff.mp hpair))
  · rintro h ⟨key, value⟩ hpair
    exact beq_iff_eq.mpr (h key value (KeyMap.get?_eq_some_iff.mpr hpair))

instance (labels others : Labels) : Decidable (labels.Within others) :=
  decidable_of_iff _ Labels.selectedBy_iff

theorem Labels.Within.trans {labels others further : Labels} (h : labels.Within others)
    (h' : others.Within further) : labels.Within further :=
  fun key value hpair => h' key value (h key value hpair)

theorem Labels.empty_within (labels : Labels) : Labels.Within KeyMap.empty labels := nofun

theorem filter_within (selector : Labels) (tasks : List Task) :
    (tasks.filter fun t => selector.Within t.labels) =
      tasks.filter (·.labels.selectedBy selector) := by
  refine List.filter_congr fun t _ => ?_
  simp [← Labels.selectedBy_iff]

/-! ### Tasks that have ended -/

/-- The observed status says that the task has ended, as in `Exited (0)`. Only the beginning of the
word is asked for, and it may stand anywhere in the status. -/
def Task.HasEnded (t : Task) : Prop :=
  "Exit".toList <:+: t.currentState.status.toList

instance (t : Task) : Decidable t.HasEnded :=
  inferInstanceAs (Decidable ("Exit".toList <:+: t.currentState.status.toList))

/-- **The test for ended tasks** does not miss any, and takes no other task for one. -/
theorem Task.isTerminated_iff (t : Task) : t.isTerminated = true ↔ t.HasEnded := occursIn_iff

/-- The tasks that pass the test for live ones are those that have not ended. -/
theorem filter_not_hasEnded (tasks : List Task) :
    (tasks.filter fun t => ¬ t.HasEnded) = tasks.filter fun t => !t.isTerminated := by
  refine List.filter_congr fun t _ => ?_
  simp [← t.isTerminated_iff]

end ControlPlane
