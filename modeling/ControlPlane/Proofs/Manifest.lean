import ControlPlane.Manifest
import ControlPlane.Proofs.Format

/-!
# Manifests are read as they were written

In every format that shows what was written, a manifest is read back from its document, and so are
the records it is made of. The documents are plain: nothing but texts, numbers, truth values, lists
and records.

## Main definitions

* `Manifest.All`: a property that all texts of a manifest have

## Main results

* `Manifest.read_form`
* `Manifest.plain_toJson`
-/

namespace ControlPlane

open Format Json

/-! ### Reading -/

section

variable {m : Type → Type} {ν : Type} [Monad m] [Format m ν] [LawfulMonad m] {form : Json → ν}

theorem Port.read_form (shows : Shows m form) (p : Port) :
    Port.read (form p.toJson) = (pure p : m Port) := by
  rw [Port.read, Port.toJson, shows.fields, pure_bind,
    field_form (by simp) (by simp) (word16_form shows p.containerPort), pure_bind,
    field_form (by simp) (by simp) (word16_form shows p.hostPort), pure_bind]

theorem EnvVar.read_form (shows : Shows m form) (v : EnvVar) :
    EnvVar.read (form v.toJson) = (pure v : m EnvVar) := by
  rw [EnvVar.read, EnvVar.toJson, shows.fields, pure_bind,
    field_form (by simp) (by simp) (shows.text v.name), pure_bind,
    field_form (by simp) (by simp) (shows.text v.value), pure_bind]

theorem VolumeMount.read_form (shows : Shows m form) (v : VolumeMount) :
    VolumeMount.read (form v.toJson) = (pure v : m VolumeMount) := by
  rw [VolumeMount.read, VolumeMount.toJson, shows.fields, pure_bind,
    field_form (by simp) (by simp) (shows.text v.name), pure_bind,
    field_form (by simp) (by simp) (shows.text v.mountPath), pure_bind,
    field_form (by simp) (by simp) (shows.flag v.readOnly), pure_bind]

theorem Container.read_form (shows : Shows m form) (c : Container) :
    Container.read (form c.toJson) = (pure c : m Container) := by
  have henv := list_form shows fun v (_ : v ∈ c.env) => EnvVar.read_form shows v
  have hports := list_form shows fun p (_ : p ∈ c.ports) => Port.read_form shows p
  have hmounts := list_form shows fun v (_ : v ∈ c.volumeMounts) => VolumeMount.read_form shows v
  rw [Container.read, Container.toJson, shows.fields, pure_bind,
    field_form (by simp) (by simp) (shows.text c.name), pure_bind,
    field_form (by simp) (by simp) (shows.text c.image), pure_bind,
    field_form (by simp) (by simp) (shows.text c.command), pure_bind,
    field_form (by simp) (by simp) (shows.text c.workingDir), pure_bind,
    field_form (by simp) (by simp) henv, pure_bind,
    field_form (by simp) (by simp) hports, pure_bind,
    field_form (by simp) (by simp) hmounts, pure_bind]

/-- **A manifest is read back from its document,** whatever the format. -/
theorem Manifest.read_form (shows : Shows m form) (x : Manifest) :
    Manifest.read (form x.toJson) = (pure x : m Manifest) := by
  have hcontainers := list_form shows fun c (_ : c ∈ x.containers) => Container.read_form shows c
  rw [Manifest.read, Manifest.toJson, shows.fields, pure_bind,
    field_form (by simp) (by simp) (shows.text x.id), pure_bind,
    field_form (by simp) (by simp) hcontainers, pure_bind]

end

/-! ### Documents -/

/-- All texts of a container have a property. -/
structure Container.All (ok : String → Prop) (c : Container) : Prop where
  name : ok c.name
  image : ok c.image
  command : ok c.command
  workingDir : ok c.workingDir
  env : ∀ v ∈ c.env, ok v.name ∧ ok v.value
  volumeMounts : ∀ v ∈ c.volumeMounts, ok v.name ∧ ok v.mountPath

/-- All texts of a manifest have a property. -/
structure Manifest.All (ok : String → Prop) (x : Manifest) : Prop where
  id : ok x.id
  containers : ∀ c ∈ x.containers, c.All ok

theorem Container.All.mono {ok ok' : String → Prop} {c : Container} (h : c.All ok)
    (hok : ∀ s, ok s → ok' s) : c.All ok' where
  name := hok _ h.name
  image := hok _ h.image
  command := hok _ h.command
  workingDir := hok _ h.workingDir
  env v hv := (h.env v hv).imp (hok _) (hok _)
  volumeMounts v hv := (h.volumeMounts v hv).imp (hok _) (hok _)

theorem Manifest.All.mono {ok ok' : String → Prop} {x : Manifest} (h : x.All ok)
    (hok : ∀ s, ok s → ok' s) : x.All ok' where
  id := hok _ h.id
  containers c hc := (h.containers c hc).mono hok

/-- The names of the fields in the document of a manifest. -/
def Manifest.fieldNames : List String :=
  ["id", "containers", "name", "image", "command", "workingDir", "env", "ports", "volumeMounts",
    "value", "containerPort", "hostPort", "mountPath", "readOnly"]

section

variable {ok named : String → Prop} (hnamed : ∀ name ∈ Manifest.fieldNames, named name)

include hnamed

theorem Port.plain_toJson (p : Port) : Plain ok named p.toJson := by
  refine .recordOf hnamed (by simp [Manifest.fieldNames]) ?_
  simp [Plain.ofNat]

theorem EnvVar.plain_toJson {v : EnvVar} (h : ok v.name ∧ ok v.value) :
    Plain ok named v.toJson := by
  refine .recordOf hnamed (by simp [Manifest.fieldNames]) ?_
  simp [Plain.text, h.1, h.2]

theorem VolumeMount.plain_toJson {v : VolumeMount} (h : ok v.name ∧ ok v.mountPath) :
    Plain ok named v.toJson := by
  refine .recordOf hnamed (by simp [Manifest.fieldNames]) ?_
  simp [Plain.text, Plain.bool, h.1, h.2]

theorem Container.plain_toJson {c : Container} (h : c.All ok) : Plain ok named c.toJson := by
  have henv : Plain ok named (.array (c.env.map EnvVar.toJson)) := by
    refine .array ?_
    simpa using fun v hv => EnvVar.plain_toJson hnamed (h.env v hv)
  have hports : Plain ok named (.array (c.ports.map Port.toJson)) := by
    refine .array ?_
    simpa using fun p _ => Port.plain_toJson hnamed p
  have hmounts : Plain ok named (.array (c.volumeMounts.map VolumeMount.toJson)) := by
    refine .array ?_
    simpa using fun v hv => VolumeMount.plain_toJson hnamed (h.volumeMounts v hv)
  refine .recordOf hnamed (by simp [Manifest.fieldNames]) ?_
  simp [Plain.text, h.name, h.image, h.command, h.workingDir, henv, hports, hmounts]

theorem Manifest.plain_toJson {x : Manifest} (h : x.All ok) : Plain ok named x.toJson := by
  have hcontainers : Plain ok named (.array (x.containers.map Container.toJson)) := by
    refine .array ?_
    simpa using fun c hc => Container.plain_toJson hnamed (h.containers c hc)
  refine .recordOf hnamed (by simp [Manifest.fieldNames]) ?_
  simp [Plain.text, h.id, hcontainers]

end

end ControlPlane
