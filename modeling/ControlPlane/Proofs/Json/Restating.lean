import ControlPlane.Proofs.Controller

/-!
# Documents that state less, or more

A document may differ from the one that would be written. In each of its records the fields may
stand in any order, fields that have their default may be missing, and there may be fields of other
names with any values whatever. This may happen in all records of a document at once, however deep
they lie, and the document is still read as the same task or controller.

What a document may be replaced by is a relation between documents, built from the relations for
their parts. Maps of labels are not records and keep their pairs, as texts and numbers keep theirs.
Only from there on does reading enter: each kind of document is shown to be read alike through all
that it may be replaced by, and a record is so if its fields are.

## Main definitions

* `Stated`, `Restates`: the fields of a record and what may stand for them
* `RecordRestated`, `ListRestated`: records and lists
* `Task.forms`, `Controller.forms`: the fields of tasks and controllers
* `ReadsThrough`: reading does not see the difference

## Main results

* `Restates.field`: one field is read
* `restated_documents_read`: tasks and controllers are read, from every text
-/

namespace ControlPlane

open Format Json

/-! ### What may stand for a document -/

/-- A field of a record: its name, the document of its default, and what may stand for its
document. -/
structure FieldForm where
  name : String
  default : Json
  restated : Json → Json → Prop

/-- The fields of a record as they were written, and what is stated of them: each is stated, or it
has its default and is left out. -/
inductive Stated : List FieldForm → List (String × Json) → List (String × Json) → Prop
  | nil : Stated [] [] []
  | kept {form : FieldForm} {forms : List FieldForm} {v v' : Json}
      {written stated : List (String × Json)} : form.restated v v' → Stated forms written stated →
      Stated (form :: forms) ((form.name, v) :: written) ((form.name, v') :: stated)
  | omitted {form : FieldForm} {forms : List FieldForm} {written stated : List (String × Json)} :
      Stated forms written stated →
      Stated (form :: forms) ((form.name, form.default) :: written) stated

/-- What is stated may stand in any order and among fields of other names. -/
def Restates (forms : List FieldForm) (written members : List (String × Json)) : Prop :=
  ∃ stated others, Stated forms written stated ∧
    (∀ other ∈ others, ∀ form ∈ forms, other.1 ≠ form.name) ∧ members.Perm (stated ++ others)

/-- A record is restated field by field. Fields may be in another order, be left out if they have
their defaults, and stand among others. -/
def RecordRestated (forms : List FieldForm) (j j' : Json) : Prop :=
  ∃ written members, j = .record written ∧ j' = .record members ∧ Restates forms written members

/-- A list is restated item by item. Its order is part of it. -/
def ListRestated (restated : Json → Json → Prop) (j j' : Json) : Prop :=
  ∃ items items', j = .array items ∧ j' = .array items' ∧ List.Forall₂ restated items items'

/-- The fields of a port. -/
def Port.forms : List FieldForm :=
  [⟨"containerPort", .ofNat 0, Eq⟩, ⟨"hostPort", .ofNat 0, Eq⟩]

/-- The fields of a variable. -/
def EnvVar.forms : List FieldForm :=
  [⟨"name", .ofString "", Eq⟩, ⟨"value", .ofString "", Eq⟩]

/-- The fields of a volume mount. -/
def VolumeMount.forms : List FieldForm :=
  [⟨"name", .ofString "", Eq⟩, ⟨"mountPath", .ofString "", Eq⟩, ⟨"readOnly", .bool false, Eq⟩]

/-- The fields of a container, three of which are lists of records. -/
def Container.forms : List FieldForm :=
  [⟨"name", .ofString "", Eq⟩, ⟨"image", .ofString "", Eq⟩, ⟨"command", .ofString "", Eq⟩,
    ⟨"workingDir", .ofString "", Eq⟩,
    ⟨"env", .array [], ListRestated (RecordRestated EnvVar.forms)⟩,
    ⟨"ports", .array [], ListRestated (RecordRestated Port.forms)⟩,
    ⟨"volumeMounts", .array [], ListRestated (RecordRestated VolumeMount.forms)⟩]

/-- The fields of a manifest. -/
def Manifest.forms : List FieldForm :=
  [⟨"id", .ofString "", Eq⟩,
    ⟨"containers", .array [], ListRestated (RecordRestated Container.forms)⟩]

/-- The fields of a state. -/
def TaskState.forms : List FieldForm :=
  [⟨"manifest", Manifest.toJson {}, RecordRestated Manifest.forms⟩,
    ⟨"restartPolicy", .ofString RestartPolicy.always.word, Eq⟩, ⟨"host", .ofString "", Eq⟩,
    ⟨"status", .ofString "", Eq⟩]

/-- The fields of a task. -/
def Task.forms : List FieldForm :=
  [⟨"id", .ofString "", Eq⟩, ⟨"labels", .ofTextMap .empty, Eq⟩,
    ⟨"desiredState", TaskState.toJson {}, RecordRestated TaskState.forms⟩,
    ⟨"currentState", TaskState.toJson {}, RecordRestated TaskState.forms⟩]

/-- The fields of a template. -/
def TaskTemplate.forms : List FieldForm :=
  [⟨"desiredState", TaskState.toJson {}, RecordRestated TaskState.forms⟩,
    ⟨"labels", .ofTextMap .empty, Eq⟩]

/-- The fields of what a controller wants. -/
def ControllerState.forms : List FieldForm :=
  [⟨"replicas", .ofNat 0, Eq⟩, ⟨"replicaSelector", .ofTextMap .empty, Eq⟩,
    ⟨"taskTemplate", TaskTemplate.toJson {}, RecordRestated TaskTemplate.forms⟩]

/-- The fields of a controller. -/
def Controller.forms : List FieldForm :=
  [⟨"id", .ofString "", Eq⟩,
    ⟨"desiredState", ControllerState.toJson {}, RecordRestated ControllerState.forms⟩,
    ⟨"labels", .ofTextMap .empty, Eq⟩]

/-! ### Fields -/

/-- What was written is read, and whatever stands for it is read alike. -/
structure ReadsThrough {α : Type} (read : Json → Option α) (write : α → Json)
    (restated : Json → Json → Prop) : Prop where
  written : ∀ a, read (write a) = some a
  restated : ∀ a j, restated (write a) j → read j = some a

/-- What may not be restated is read through as soon as it is read as it was written. -/
theorem ReadsThrough.exact {α : Type} {read : Json → Option α} {write : α → Json}
    (h : ∀ a, read (write a) = some a) : ReadsThrough read write Eq :=
  ⟨h, fun a _ heq => heq ▸ h a⟩

section

variable {form : FieldForm} {forms : List FieldForm} {written stated members : List (String × Json)}
  {v : Json}

/-- What was written and what is stated has the names of the fields. -/
theorem Stated.name_mem (h : Stated forms written stated) :
    (∀ f ∈ written, f.1 ∈ forms.map FieldForm.name) ∧
      ∀ f ∈ stated, f.1 ∈ forms.map FieldForm.name := by
  induction h with
  | nil => exact ⟨nofun, nofun⟩
  | kept _ _ ih =>
    simp only [List.map_cons, List.forall_mem_cons]
    exact ⟨⟨List.mem_cons_self .., fun f hf => List.mem_cons_of_mem _ (ih.1 f hf)⟩,
      List.mem_cons_self .., fun f hf => List.mem_cons_of_mem _ (ih.2 f hf)⟩
  | omitted _ ih =>
    simp only [List.map_cons, List.forall_mem_cons]
    exact ⟨⟨List.mem_cons_self .., fun f hf => List.mem_cons_of_mem _ (ih.1 f hf)⟩,
      fun f hf => List.mem_cons_of_mem _ (ih.2 f hf)⟩

/-- No other field stands under the name of the first one. -/
theorem Stated.filter_eq_nil (h : Stated forms written stated)
    (hform : form.name ∉ forms.map FieldForm.name) :
    (∀ v, (form.name, v) ∉ written) ∧ stated.filter (·.1 == form.name) = [] := by
  refine ⟨fun v hv => hform (h.name_mem.1 _ hv), List.filter_eq_nil_iff.mpr fun f hf hname => ?_⟩
  exact hform (beq_iff_eq.mp hname ▸ h.name_mem.2 f hf)

/-- Under the name of a field stands what is stated of it, or nothing if it has its default. -/
theorem Stated.filter_eq (h : Stated forms written stated)
    (hnames : (forms.map FieldForm.name).Nodup) (hform : form ∈ forms)
    (hv : (form.name, v) ∈ written) :
    (∃ v', form.restated v v' ∧ stated.filter (·.1 == form.name) = [(form.name, v')]) ∨
      v = form.default ∧ stated.filter (·.1 == form.name) = [] := by
  induction h with
  | nil => cases hform
  | @kept first forms w w' written stated hw h ih =>
    obtain ⟨hfirst, hnames⟩ := List.nodup_cons.mp hnames
    rcases List.mem_cons.mp hform with rfl | hform
    · obtain ⟨hnone, hnil⟩ := h.filter_eq_nil hfirst
      obtain rfl : v = w := by
        rcases List.mem_cons.mp hv with heq | hv
        · exact (Prod.mk.inj heq).2
        · exact absurd hv (hnone v)
      exact .inl ⟨w', hw, by rw [List.filter_cons_of_pos (by simp), hnil]⟩
    · have hne : first.name ≠ form.name := fun heq =>
        hfirst (heq ▸ List.mem_map_of_mem (f := FieldForm.name) hform)
      rw [List.filter_cons_of_neg (by simpa using hne)]
      refine ih hnames hform ((List.mem_cons.mp hv).resolve_left fun heq => ?_)
      exact hne (Prod.mk.inj heq).1.symm
  | @omitted first forms written stated h ih =>
    obtain ⟨hfirst, hnames⟩ := List.nodup_cons.mp hnames
    rcases List.mem_cons.mp hform with rfl | hform
    · obtain ⟨hnone, hnil⟩ := h.filter_eq_nil hfirst
      refine .inr ⟨?_, hnil⟩
      rcases List.mem_cons.mp hv with heq | hv
      · exact (Prod.mk.inj heq).2
      · exact absurd hv (hnone v)
    · have hne : first.name ≠ form.name := fun heq =>
        hfirst (heq ▸ List.mem_map_of_mem (f := FieldForm.name) hform)
      refine ih hnames hform ((List.mem_cons.mp hv).resolve_left fun heq => ?_)
      exact hne (Prod.mk.inj heq).1.symm

/-- **One field is read** from a record that was restated. -/
theorem Restates.field {α : Type} {name : String} {write : α → Json} {default : α}
    {restated : Json → Json → Prop} {read : Json → Option α} (h : Restates forms written members)
    (hnames : (forms.map FieldForm.name).Nodup) (a : α) (hread : ReadsThrough read write restated)
    (hform : ⟨name, write default, restated⟩ ∈ forms) (hwritten : (name, write a) ∈ written) :
    field members name read default = pure a := by
  obtain ⟨stated, others, hstated, hothers, hperm⟩ := h
  have hnone : others.filter (·.1 == name) = [] :=
    List.filter_eq_nil_iff.mpr fun other hother hname =>
      hothers other hother _ hform (beq_iff_eq.mp hname)
  have hfilter := hperm.filter (·.1 == name)
  rw [List.filter_append, hnone, List.append_nil] at hfilter
  rcases hstated.filter_eq hnames hform hwritten with ⟨v, hv, hone⟩ | ⟨hdefault, hnil⟩
  · rw [hone] at hfilter
    rw [Format.field, only, List.perm_singleton.mp hfilter, pure_bind]
    exact hread.restated a v hv
  · rw [hnil] at hfilter
    have hsame : some a = some default := by
      rw [← hread.written a, ← hread.written default]
      exact congrArg read hdefault
    rw [Format.field, only, hfilter.eq_nil, pure_bind, ← Option.some.inj hsame]

end

theorem RecordRestated.exists_members {forms : List FieldForm} {written : List (String × Json)}
    {j : Json} (h : RecordRestated forms (.record written) j) :
    ∃ members, j = .record members ∧ Restates forms written members := by
  obtain ⟨written', members, hwritten, rfl, h⟩ := h
  have hmembers := congrArg members? hwritten
  rw [members?_record, members?_record] at hmembers
  obtain rfl := Option.some.inj hmembers
  exact ⟨members, rfl, h⟩

/-! ### Kinds of documents -/

theorem ReadsThrough.list {α : Type} {read : Json → Option α} {write : α → Json}
    {restated : Json → Json → Prop} (h : ReadsThrough read write restated) :
    ReadsThrough (Format.list read) (fun l : List α => .array (l.map write))
      (ListRestated restated) where
  written l := list_form shows_json fun a _ => h.written a
  restated l j hj := by
    obtain ⟨items, items', heq, rfl, hitems⟩ := hj
    obtain rfl := Json.array.inj heq
    change items'.mapM read = some l
    induction l generalizing items' with
    | nil =>
      cases hitems
      rfl
    | cons a l ih =>
      cases hitems with
      | cons hitem hrest =>
        rw [List.mapM_cons, h.restated a _ hitem, ih _ rfl hrest]
        rfl

theorem readsThrough_text : ReadsThrough (text (m := Option)) .ofString Eq :=
  .exact shows_json.text

theorem readsThrough_flag : ReadsThrough (flag (m := Option)) .bool Eq :=
  .exact shows_json.flag

theorem readsThrough_word16 :
    ReadsThrough (word16 (m := Option)) (fun n => Json.ofNat n.toNat) Eq :=
  .exact (word16_form shows_json)

theorem readsThrough_word64 :
    ReadsThrough (word64 (m := Option)) (fun n => Json.ofNat n.toNat) Eq :=
  .exact (word64_form shows_json)

theorem readsThrough_labels : ReadsThrough textMap? .ofTextMap Eq :=
  .exact textMap?_ofTextMap

theorem RestartPolicy.readsThrough :
    ReadsThrough (Json.word? RestartPolicy.words) (fun p => .ofString p.word) Eq :=
  .exact RestartPolicy.word?_word

theorem Port.readsThrough : ReadsThrough Port.read Port.toJson (RecordRestated forms) where
  written := Port.read_form shows_json
  restated p j hj := by
    obtain ⟨members, rfl, h⟩ := hj.exists_members
    have hnames : (forms.map FieldForm.name).Nodup := by decide
    rw [Port.read, fields_record, pure_bind,
      h.field hnames p.containerPort readsThrough_word16 (by simp [forms]) (by simp), pure_bind,
      h.field hnames p.hostPort readsThrough_word16 (by simp [forms]) (by simp), pure_bind]
    rfl

theorem EnvVar.readsThrough : ReadsThrough EnvVar.read EnvVar.toJson (RecordRestated forms) where
  written := EnvVar.read_form shows_json
  restated v j hj := by
    obtain ⟨members, rfl, h⟩ := hj.exists_members
    have hnames : (forms.map FieldForm.name).Nodup := by decide
    rw [EnvVar.read, fields_record, pure_bind,
      h.field hnames v.name readsThrough_text (by simp [forms]) (by simp), pure_bind,
      h.field hnames v.value readsThrough_text (by simp [forms]) (by simp), pure_bind]
    rfl

theorem VolumeMount.readsThrough :
    ReadsThrough VolumeMount.read VolumeMount.toJson (RecordRestated forms) where
  written := VolumeMount.read_form shows_json
  restated v j hj := by
    obtain ⟨members, rfl, h⟩ := hj.exists_members
    have hnames : (forms.map FieldForm.name).Nodup := by decide
    rw [VolumeMount.read, fields_record, pure_bind,
      h.field hnames v.name readsThrough_text (by simp [forms]) (by simp), pure_bind,
      h.field hnames v.mountPath readsThrough_text (by simp [forms]) (by simp), pure_bind,
      h.field hnames v.readOnly readsThrough_flag (by simp [forms]) (by simp), pure_bind]
    rfl

theorem Container.readsThrough :
    ReadsThrough Container.read Container.toJson (RecordRestated forms) where
  written := Container.read_form shows_json
  restated c j hj := by
    obtain ⟨members, rfl, h⟩ := hj.exists_members
    have hnames : (forms.map FieldForm.name).Nodup := by decide
    rw [Container.read, fields_record, pure_bind,
      h.field hnames c.name readsThrough_text (by simp [forms]) (by simp), pure_bind,
      h.field hnames c.image readsThrough_text (by simp [forms]) (by simp), pure_bind,
      h.field hnames c.command readsThrough_text (by simp [forms]) (by simp), pure_bind,
      h.field hnames c.workingDir readsThrough_text (by simp [forms]) (by simp), pure_bind,
      h.field hnames c.env EnvVar.readsThrough.list (by simp [forms]) (by simp), pure_bind,
      h.field hnames c.ports Port.readsThrough.list (by simp [forms]) (by simp), pure_bind,
      h.field hnames c.volumeMounts VolumeMount.readsThrough.list (by simp [forms])
        (by simp), pure_bind]
    rfl

theorem Manifest.readsThrough :
    ReadsThrough Manifest.read Manifest.toJson (RecordRestated forms) where
  written := Manifest.read_form shows_json
  restated x j hj := by
    obtain ⟨members, rfl, h⟩ := hj.exists_members
    have hnames : (forms.map FieldForm.name).Nodup := by decide
    rw [Manifest.read, fields_record, pure_bind,
      h.field hnames x.id readsThrough_text (by simp [forms]) (by simp), pure_bind,
      h.field hnames x.containers Container.readsThrough.list (by simp [forms])
        (by simp), pure_bind]
    rfl

theorem TaskState.readsThrough :
    ReadsThrough TaskState.read TaskState.toJson (RecordRestated forms) where
  written := TaskState.read_toJson
  restated s j hj := by
    obtain ⟨members, rfl, h⟩ := hj.exists_members
    have hnames : (forms.map FieldForm.name).Nodup := by decide
    rw [TaskState.read, fields_record, pure_bind,
      h.field hnames s.manifest Manifest.readsThrough (by simp [forms]) (by simp), pure_bind,
      h.field hnames s.restartPolicy RestartPolicy.readsThrough (by simp [forms])
        (by simp), pure_bind,
      h.field hnames s.host readsThrough_text (by simp [forms]) (by simp), pure_bind,
      h.field hnames s.status readsThrough_text (by simp [forms]) (by simp), pure_bind]
    rfl

/-- **A task is read** from whatever may stand for its document. -/
theorem Task.readsThrough : ReadsThrough Task.read Task.toJson (RecordRestated forms) where
  written := Task.read_toJson
  restated t j hj := by
    obtain ⟨members, rfl, h⟩ := hj.exists_members
    have hnames : (forms.map FieldForm.name).Nodup := by decide
    rw [Task.read, fields_record, pure_bind,
      h.field hnames t.id readsThrough_text (by simp [forms]) (by simp), pure_bind,
      h.field hnames t.labels readsThrough_labels (by simp [forms]) (by simp), pure_bind,
      h.field hnames t.desiredState TaskState.readsThrough (by simp [forms]) (by simp), pure_bind,
      h.field hnames t.currentState TaskState.readsThrough (by simp [forms]) (by simp), pure_bind]
    rfl

theorem TaskTemplate.readsThrough :
    ReadsThrough TaskTemplate.read TaskTemplate.toJson (RecordRestated forms) where
  written := TaskTemplate.read_toJson
  restated t j hj := by
    obtain ⟨members, rfl, h⟩ := hj.exists_members
    have hnames : (forms.map FieldForm.name).Nodup := by decide
    rw [TaskTemplate.read, fields_record, pure_bind,
      h.field hnames t.desiredState TaskState.readsThrough (by simp [forms]) (by simp), pure_bind,
      h.field hnames t.labels readsThrough_labels (by simp [forms]) (by simp), pure_bind]
    rfl

theorem ControllerState.readsThrough :
    ReadsThrough ControllerState.read ControllerState.toJson (RecordRestated forms) where
  written := ControllerState.read_toJson
  restated s j hj := by
    obtain ⟨members, rfl, h⟩ := hj.exists_members
    have hnames : (forms.map FieldForm.name).Nodup := by decide
    rw [ControllerState.read, fields_record, pure_bind,
      h.field hnames s.replicas readsThrough_word64 (by simp [forms]) (by simp), pure_bind,
      h.field hnames s.replicaSelector readsThrough_labels (by simp [forms]) (by simp), pure_bind,
      h.field hnames s.taskTemplate TaskTemplate.readsThrough (by simp [forms])
        (by simp), pure_bind]
    rfl

/-- **A controller is read** from whatever may stand for its document. -/
theorem Controller.readsThrough :
    ReadsThrough Controller.read Controller.toJson (RecordRestated forms) where
  written := Controller.read_toJson
  restated c j hj := by
    obtain ⟨members, rfl, h⟩ := hj.exists_members
    have hnames : (forms.map FieldForm.name).Nodup := by decide
    rw [Controller.read, fields_record, pure_bind,
      h.field hnames c.id readsThrough_text (by simp [forms]) (by simp), pure_bind,
      h.field hnames c.desiredState ControllerState.readsThrough (by simp [forms])
        (by simp), pure_bind,
      h.field hnames c.labels readsThrough_labels (by simp [forms]) (by simp), pure_bind]
    rfl

/-- **Documents are read from every text that spells what may stand for them.** -/
theorem restated_documents_read :
    (∀ (t : Task) (j : Json) (text : String), RecordRestated Task.forms t.toJson j →
      Spelled (.value j) text.toList → (Json.ofText? text).bind Task.read = some t) ∧
    (∀ (c : Controller) (j : Json) (text : String),
      RecordRestated Controller.forms c.toJson j → Spelled (.value j) text.toList →
        (Json.ofText? text).bind Controller.read = some c) := by
  refine ⟨fun t j text hj htext => ?_, fun c j text hj htext => ?_⟩
  · rw [ofText?_spelled htext]
    exact Task.readsThrough.restated t j hj
  · rw [ofText?_spelled htext]
    exact Controller.readsThrough.restated c j hj

/-- What is stated, and what else there is, may stand in reverse. -/
theorem Stated.reversed {forms : List FieldForm} {written stated : List (String × Json)}
    (h : Stated forms written stated) (others : List (String × Json))
    (hothers : ∀ other ∈ others, ∀ form ∈ forms, other.1 ≠ form.name) :
    RecordRestated forms (.record written) (.record (stated ++ others).reverse) :=
  ⟨written, _, rfl, rfl, stated, others, h, hothers, List.reverse_perm _⟩

/-- A task that takes a port and has the default in most fields. -/
def sparse : Task where
  id := "a"
  labels := .ofList [("app", "web")]
  currentState.manifest.containers := [{ name := "c", ports := [{ hostPort := 80 }] }]
  currentState.status := "Up"

/-- A document for it without any default and with fields of other names. -/
def sparseDocument : Json :=
  let port := .record [("protocol", .ofString "tcp"), ("hostPort", .ofNat 80)]
  let container := .record [("ports", .array [port]), ("name", .ofString "c")]
  let manifest := .record [("containers", .array [container])]
  let state := .record [("status", .ofString "Up"), ("manifest", manifest)]
  .record [("x", .array [.null, .number (.other "1e400")]), ("currentState", state),
    ("labels", .ofTextMap (.ofList [("app", "web")])), ("id", .ofString "a")]

/-- Its text, between white space. -/
def sparseText : String := String.ofList (' ' :: (sparseDocument.print ++ ['\n']))

theorem restated_sparseDocument : RecordRestated Task.forms sparse.toJson sparseDocument := by
  have hport : RecordRestated Port.forms (Port.toJson { hostPort := 80 }) _ :=
    (Stated.omitted (.kept rfl .nil)).reversed [("protocol", .ofString "tcp")] (by decide)
  have hports : ListRestated (RecordRestated Port.forms) _ _ :=
    ⟨_, _, rfl, rfl, .cons hport .nil⟩
  have hcontainer : RecordRestated Container.forms
      (Container.toJson { name := "c", ports := [{ hostPort := 80 }] }) _ :=
    (Stated.kept rfl <| .omitted <| .omitted <| .omitted <| .omitted <| .kept hports <|
      .omitted .nil).reversed [] nofun
  have hcontainers : ListRestated (RecordRestated Container.forms) _ _ :=
    ⟨_, _, rfl, rfl, .cons hcontainer .nil⟩
  have hmanifest : RecordRestated Manifest.forms sparse.currentState.manifest.toJson _ :=
    (Stated.omitted <| .kept hcontainers .nil).reversed [] nofun
  have hstate : RecordRestated TaskState.forms sparse.currentState.toJson _ :=
    (Stated.kept hmanifest <| .omitted <| .omitted <| .kept rfl .nil).reversed [] nofun
  exact (Stated.kept rfl <| .kept rfl <| .omitted <| .kept hstate .nil).reversed
    [("x", .array [.null, .number (.other "1e400")])] (by decide)

theorem spelled_sparseText : Spelled (.value sparseDocument) sparseText.toList := by
  have hport : Spelled (.value (.record [("protocol", _), ("hostPort", _)])) _ :=
    spelled_record (List.forall_mem_cons.mpr ⟨spelled_ofString "tcp",
      List.forall_mem_singleton.mpr (spelled_ofNat 80)⟩)
  have hports := spelled_array (List.forall_mem_singleton.mpr hport)
  have hcontainer : Spelled (.value (.record [("ports", _), ("name", _)])) _ :=
    spelled_record (List.forall_mem_cons.mpr ⟨hports,
      List.forall_mem_singleton.mpr (spelled_ofString "c")⟩)
  have hcontainers := spelled_array (List.forall_mem_singleton.mpr hcontainer)
  have hmanifest : Spelled (.value (.record [("containers", _)])) _ :=
    spelled_record (List.forall_mem_singleton.mpr hcontainers)
  have hstate : Spelled (.value (.record [("status", _), ("manifest", _)])) _ :=
    spelled_record (List.forall_mem_cons.mpr ⟨spelled_ofString "Up",
      List.forall_mem_singleton.mpr hmanifest⟩)
  have hpower : Exponent ('e' :: ([] ++ ['4', '0', '0'])) :=
    .power (.inl rfl) (by decide) ⟨by decide, List.all_eq_true.mp (by decide)⟩
  have hnumber : Numeral.Spelled (.other "1e400") "1e400".toList :=
    .other false 1 .none hpower (.inr (.inl (by decide)))
  have hunknown : Spelled (.value (.array [.null, .number (.other "1e400")])) _ :=
    spelled_array (List.forall_mem_cons.mpr ⟨.null,
      List.forall_mem_singleton.mpr (.number hnumber)⟩)
  have hlabels := (plain_ofTextMap (.ofList [("app", "web")])).spelled
  have hdocument : Spelled (.value sparseDocument) sparseDocument.print :=
    spelled_record (List.forall_mem_cons.mpr ⟨hunknown, List.forall_mem_cons.mpr ⟨hstate,
      List.forall_mem_cons.mpr ⟨hlabels,
        List.forall_mem_singleton.mpr (spelled_ofString "a")⟩⟩⟩)
  rw [sparseText, String.toList_ofList]
  have hspace : Spaces [' '] := by simp [Spaces, isSpace]
  have hline : Spaces ['\n'] := by simp [Spaces, isSpace]
  exact .spaced hspace hdocument hline

/-- The text of a controller that states its id and its number of replicas, behind an unknown
field. -/
def terseText : String :=
  (Json.record [("kind", .bool true), ("desiredState", .record [("replicas", .ofNat 2)]),
    ("id", .ofString "web")]).toText

theorem restated_documents_read_sparse :
    (RecordRestated Task.forms sparse.toJson sparseDocument ∧
      Spelled (.value sparseDocument) sparseText.toList ∧
      (Json.ofText? sparseText).bind Task.read = some sparse) ∧
    (Json.ofText? terseText).bind Controller.read =
      some { id := "web", desiredState := { replicas := 2 } } := by
  refine ⟨⟨restated_sparseDocument, spelled_sparseText,
    restated_documents_read.1 _ _ _ restated_sparseDocument spelled_sparseText⟩, ?_⟩
  have hstate : RecordRestated ControllerState.forms (ControllerState.toJson { replicas := 2 }) _ :=
    (Stated.kept rfl <| .omitted <| .omitted .nil).reversed [] nofun
  have hrestated : RecordRestated Controller.forms
      (Controller.toJson { id := "web", desiredState := { replicas := 2 } }) _ :=
    (Stated.kept rfl <| .kept hstate <| .omitted .nil).reversed [("kind", .bool true)] (by decide)
  refine restated_documents_read.2 _ _ _ hrestated ?_
  rw [terseText, toText, String.toList_ofList]
  refine spelled_record (List.forall_mem_cons.mpr ⟨.yes, List.forall_mem_cons.mpr ⟨?_,
    List.forall_mem_singleton.mpr (spelled_ofString "web")⟩⟩)
  exact spelled_record (List.forall_mem_singleton.mpr (spelled_ofNat 2))

end ControlPlane
