import ControlPlane.Controller
import ControlPlane.Proofs.Task

/-!
# Controllers are read as they were written

The stored text of a controller is read as that controller, whatever its selector, its template and
its number of replicas are.

## Main results

* `Controller.read_toJson`: the document of a controller
* `Controller.read_encode`: its stored text
-/

namespace ControlPlane

open Format Json

theorem TaskTemplate.read_toJson (t : TaskTemplate) : TaskTemplate.read t.toJson = pure t := by
  rw [TaskTemplate.read, TaskTemplate.toJson, fields_record, pure_bind,
    field_eq_of_mem (by simp) (by simp) (TaskState.read_toJson t.desiredState), pure_bind,
    field_eq_of_mem (by simp) (by simp) (textMap?_ofTextMap t.labels), pure_bind]

theorem ControllerState.read_toJson (s : ControllerState) :
    ControllerState.read s.toJson = pure s := by
  rw [ControllerState.read, ControllerState.toJson, fields_record, pure_bind,
    field_eq_of_mem (by simp) (by simp) (word64_form shows_json s.replicas), pure_bind,
    field_eq_of_mem (by simp) (by simp) (textMap?_ofTextMap s.replicaSelector), pure_bind,
    field_eq_of_mem (by simp) (by simp) (TaskTemplate.read_toJson s.taskTemplate), pure_bind]

/-- **A controller is read from its document,** for any labels, selector and template. -/
theorem Controller.read_toJson (c : Controller) : Controller.read c.toJson = pure c := by
  rw [Controller.read, Controller.toJson, fields_record, pure_bind,
    field_eq_of_mem (by simp) (by simp) (shows_json.text c.id), pure_bind,
    field_eq_of_mem (by simp) (by simp) (ControllerState.read_toJson c.desiredState), pure_bind,
    field_eq_of_mem (by simp) (by simp) (textMap?_ofTextMap c.labels), pure_bind]

/-! ### Stored texts -/

theorem TaskTemplate.plain_toJson (t : TaskTemplate) : AnyPlain t.toJson := by
  refine .record (fun _ _ => trivial) ?_
  simp [plain_ofTextMap, TaskState.plain_toJson]

theorem ControllerState.plain_toJson (s : ControllerState) : AnyPlain s.toJson := by
  refine .record (fun _ _ => trivial) ?_
  simp [Plain.ofNat, plain_ofTextMap, TaskTemplate.plain_toJson]

theorem Controller.plain_toJson (c : Controller) : AnyPlain c.toJson := by
  refine .record (fun _ _ => trivial) ?_
  simp [Plain.text, plain_ofTextMap, ControllerState.plain_toJson]

/-- **A controller is read from its stored text,** so nothing about it is lost in the store. -/
theorem Controller.read_encode (c : Controller) :
    (Json.ofText? c.encode).bind Controller.read = some c := by
  rw [Controller.encode, ofText?_toText c.plain_toJson, Option.bind_some, Controller.read_toJson]
  rfl

end ControlPlane
