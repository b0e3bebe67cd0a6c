import ControlPlane.Event
import ControlPlane.Proofs.Controller
import ControlPlane.Settings

/-!
# Every document is read as it was written

Five kinds of records are written as JSON texts: tasks, controllers, events, and the settings of the
two processes. Nothing is lost on the way. Any text may stand in a record, numbers may have any
value of their width, and a span may have any length.

In events and settings every field has to be there. A span even refuses fields that it does not
know, so what is written for one must not have any others than the two that are read.

## Main results

* `Event.read_toJson`, `NodeSettings.read_toJson`, `ManagerSettings.read_toJson`: a record is read
  from its document
* `documents_read_back`: for all kinds of records, from the text
-/

namespace ControlPlane

open Format Json

/-! ### Fields that have to be there -/

/-- A required field of a written record is read. -/
theorem Json.required_eq_of_mem {α : Type} {fs : List (String × Json)} {name : String} {j : Json}
    {a : α} {read : Json → Option α} (hnames : (fs.map Prod.fst).Nodup) (hmem : (name, j) ∈ fs)
    (h : read j = pure a) : required fs name read = pure a := by
  have honly : only (m := Option) name fs = pure (some j) := only_eq_of_mem hnames hmem
  rw [required, honly, pure_bind]
  exact h

theorem Json.list_text_ofString (l : List String) :
    list (m := Option) text (.array (l.map ofString)) = pure l :=
  list_form shows_json fun s _ => shows_json.text s

theorem Json.signed64?_toInt (n : Int64) : signed64? (.number (.integer n.toInt)) = some n := by
  have hrange : (Int64.minValue.toInt ≤ n.toInt && n.toInt ≤ Int64.maxValue.toInt) = true :=
    Bool.and_eq_true_iff.mpr ⟨decide_eq_true n.minValue_le_toInt, decide_eq_true n.toInt_le⟩
  rw [signed64?, integer?, Option.bind_eq_bind, Option.bind_some, if_pos hrange, Int64.ofInt_toInt]

theorem Policy.read_word (p : Policy) : Policy.read (.ofString p.word) = some p := by
  cases p <;> rfl

/-! ### Spans -/

theorem Span.ofParts?_parts (d : Span) : ofParts? d.seconds.toNat d.nanos = some d := by
  obtain ⟨seconds, nanos, hnanos⟩ := d
  have hcarry : nanos / nanosPerSecond = 0 := Nat.div_eq_of_lt hnanos
  have hbound : seconds.toNat < UInt64.size := seconds.toNat_lt
  simp only [ofParts?, hcarry, Nat.add_zero, if_pos hbound, UInt64.ofNat_toNat,
    Nat.mod_eq_of_lt hnanos]

/-- The nanoseconds of a span are within both bounds that they are read with. -/
theorem Span.natural_nanos (d : Span) :
    natural (m := Option) (.ofNat d.nanos) = pure d.nanos.val ∧ d.nanos.val < UInt32.size := by
  have hbound : d.nanos.val < UInt32.size := Nat.lt_trans d.nanos.isLt (by decide)
  exact ⟨shows_json.natural _ (Nat.lt_trans hbound (by decide)), hbound⟩

theorem Span.read_toJson (d : Span) : Span.read d.toJson = pure d := by
  obtain ⟨hnanos, hbound⟩ := d.natural_nanos
  rw [Span.read, Span.toJson, fields_record, pure_bind,
    show guard _ = some () from if_pos (by simp), Option.bind_eq_bind, Option.bind_some,
    required_eq_of_mem (by simp) (by simp) (word64_form shows_json d.seconds), pure_bind,
    required_eq_of_mem (by simp) (by simp) hnanos, pure_bind,
    show guard _ = some () from if_pos hbound, Option.bind_some]
  exact d.ofParts?_parts

/-! ### Records -/

/-- **An event is read from its document,** although the document nests the names of the manifest
and the container in records of their own. -/
theorem Event.read_toJson (e : Event) : Event.read e.toJson = pure e := by
  -- the manifest and the container stand in records of one field each
  have hnested (name s : String) :
      (fields (m := Option) [name] (record [(name, ofString s)])).bind
        (fun r => required r name text) = pure s := by
    rw [fields_record]
    exact required_eq_of_mem (by simp) (by simp) (shows_json.text s)
  rw [Event.read, Event.toJson, fields_record, pure_bind,
    required_eq_of_mem (by simp) (by simp) (shows_json.text e.event), pure_bind,
    required_eq_of_mem (by simp) (by simp) (hnested "id" e.manifest), pure_bind,
    required_eq_of_mem (by simp) (by simp) (hnested "name" e.container), pure_bind,
    required_eq_of_mem (by simp) (by simp) (signed64?_toInt e.timestamp), pure_bind]

/-- **The settings of a node agent are read from their document.** -/
theorem NodeSettings.read_toJson (s : NodeSettings) : NodeSettings.read s.toJson = pure s := by
  rw [NodeSettings.read, NodeSettings.toJson, fields_record, pure_bind,
    required_eq_of_mem (by simp) (by simp) (shows_json.text s.hostname), pure_bind,
    required_eq_of_mem (by simp) (by simp) (list_text_ofString s.etcdServers), pure_bind,
    required_eq_of_mem (by simp) (by simp) s.syncFrequency.read_toJson, pure_bind,
    required_eq_of_mem (by simp) (by simp) s.watchTimeout.read_toJson, pure_bind,
    required_eq_of_mem (by simp) (by simp) s.storeRetryInterval.read_toJson, pure_bind,
    required_eq_of_mem (by simp) (by simp) s.stopGracePeriod.read_toJson, pure_bind,
    required_eq_of_mem (by simp) (by simp) s.eventTtl.read_toJson, pure_bind,
    required_eq_of_mem (by simp) (by simp) (shows_json.text s.volumeRoot), pure_bind]

/-- **The settings of a replication manager are read from their document.** -/
theorem ManagerSettings.read_toJson (s : ManagerSettings) :
    ManagerSettings.read s.toJson = pure s := by
  rw [ManagerSettings.read, ManagerSettings.toJson, fields_record, pure_bind,
    required_eq_of_mem (by simp) (by simp) (list_text_ofString s.etcdServers), pure_bind,
    required_eq_of_mem (by simp) (by simp) (list_text_ofString s.machines), pure_bind,
    required_eq_of_mem (by simp) (by simp) s.syncInterval.read_toJson, pure_bind,
    required_eq_of_mem (by simp) (by simp) s.creationDelay.read_toJson, pure_bind,
    required_eq_of_mem (by simp) (by simp) s.watchRetryInterval.read_toJson, pure_bind,
    required_eq_of_mem (by simp) (by simp) s.scheduler.read_word, pure_bind,
    required_eq_of_mem (by simp) (by simp) (word64_form shows_json s.capacity), pure_bind]

/-! ### Texts -/

theorem Json.plain_texts (l : List String) : AnyPlain (.array (l.map ofString)) := by
  refine .array ?_
  simp [Plain.text]

theorem Span.plain_toJson (d : Span) : AnyPlain d.toJson := by
  refine .record (fun _ _ => trivial) ?_
  simp [Plain.ofNat]

theorem Event.plain_toJson (e : Event) : AnyPlain e.toJson := by
  have hnested (name s : String) : AnyPlain (.record [(name, ofString s)]) := by
    refine .record (fun _ _ => trivial) ?_
    simp [Plain.text]
  refine .record (fun _ _ => trivial) ?_
  simp [Plain.text, Plain.integer, hnested]

theorem NodeSettings.plain_toJson (s : NodeSettings) : AnyPlain s.toJson := by
  refine .record (fun _ _ => trivial) ?_
  simp [Plain.text, plain_texts, Span.plain_toJson]

theorem ManagerSettings.plain_toJson (s : ManagerSettings) : AnyPlain s.toJson := by
  refine .record (fun _ _ => trivial) ?_
  simp [Plain.text, Plain.ofNat, plain_texts, Span.plain_toJson]

/-- What is read from a document is read from its text. -/
theorem Json.read_toText {α : Type} {read : Json → Option α} {j : Json} {a : α} (hj : AnyPlain j)
    (h : read j = pure a) : (ofText? j.toText).bind read = some a := by
  rw [ofText?_toText hj, Option.bind_some]
  exact h

/-- **Every document is read as it was written.** Each record of the five kinds, whatever its texts,
labels, numbers and spans are, is read from its text. -/
theorem documents_read_back :
    (∀ t : Task, (Json.ofText? t.encode).bind Task.read = some t) ∧
    (∀ c : Controller, (Json.ofText? c.encode).bind Controller.read = some c) ∧
    (∀ e : Event, (Json.ofText? e.encode).bind Event.read = some e) ∧
    (∀ s : NodeSettings, (Json.ofText? s.toJson.toText).bind NodeSettings.read = some s) ∧
    (∀ s : ManagerSettings, (Json.ofText? s.toJson.toText).bind ManagerSettings.read = some s) :=
  ⟨Task.read_encode, Controller.read_encode,
    fun e => read_toText e.plain_toJson e.read_toJson,
    fun s => read_toText s.plain_toJson s.read_toJson,
    fun s => read_toText s.plain_toJson s.read_toJson⟩

end ControlPlane
