import ControlPlane.Manifest.Listing
import ControlPlane.Proofs.Manifest
import ControlPlane.Proofs.Yaml.Reading

/-!
# Manifest lists are read as they were written

A manifest list is written as JSON and read as YAML. This loses nothing as long as no text contains
one of the characters that JSON leaves alone and YAML does not. Those that YAML takes for line ends
change a text; one that YAML does not allow at all makes the whole list unreadable.

## Main definitions

* `Manifest.texts`: the texts of a manifest
* `Manifest.Readable`, `Manifest.OnOneLine`: conditions on these

## Main results

* `Manifest.decodeList_encodeList`
* `Manifest.decodeList_eq`: which texts are not changed on the way
* `Manifest.decodeList_of_not_readable`, `Manifest.decodeList_of_readable`: which texts make a list
  unreadable
-/

namespace ControlPlane

open Format Json Yaml

theorem Manifest.shortName_fieldNames : ∀ name ∈ Manifest.fieldNames, ShortName name := by
  unfold ShortName
  decide

theorem Manifest.blankText_encodeList (manifests : List Manifest) :
    blankText (encodeList manifests) = false := by
  rw [blankText, encodeList, toText, String.toList_ofList, print, List.all_cons]
  rfl

/-- **A list of manifests is read from its document,** as long as all characters that JSON leaves
alone are allowed and end no line. -/
theorem Manifest.decodeList_of_steady {manifests : List Manifest}
    (h : ∀ x ∈ manifests, x.All Steady) : decodeList (encodeList manifests) = .ok manifests := by
  have hplain : ∀ j ∈ manifests.map Manifest.toJson, Plain Steady ShortName j := by
    intro j hj
    obtain ⟨x, hx, rfl⟩ := List.mem_map.mp hj
    exact Manifest.plain_toJson Manifest.shortName_fieldNames (h x hx)
  obtain ⟨size, hdocument⟩ := ofText?_print hplain
  have hread : Format.list Manifest.read (nodeOf (.array (manifests.map Manifest.toJson))) =
      (pure manifests : Following _) :=
    list_form shows_yaml fun x _ => Manifest.read_form shows_yaml x
  rw [decodeList, blankText_encodeList, encodeList, toText, String.toList_ofList, hdocument,
    Option.bind_some, Document.decode?, hread]
  rfl

theorem Manifest.decodeList_encodeList {manifests : List Manifest}
    (h : ∀ x ∈ manifests, x.All Clean) : decodeList (encodeList manifests) = .ok manifests :=
  decodeList_of_steady fun x hx => (h x hx).mono fun _ hs => hs.steady

/-! ### Which texts -/

/-- The texts of a container. Only what is written as it is can spoil a document; numbers and truth
values cannot. -/
def Container.texts (c : Container) : List String :=
  [c.name, c.image, c.command, c.workingDir] ++ c.env.flatMap (fun v => [v.name, v.value]) ++
    c.volumeMounts.flatMap fun v => [v.name, v.mountPath]

/-- The texts of a manifest. -/
def Manifest.texts (x : Manifest) : List String :=
  x.id :: x.containers.flatMap Container.texts

theorem Container.all_of_texts {ok : String → Prop} {c : Container} (h : ∀ s ∈ c.texts, ok s) :
    c.All ok := by
  simp only [texts, List.forall_mem_append, List.forall_mem_cons, List.mem_flatMap] at h
  obtain ⟨⟨⟨hname, himage, hcommand, hworkingDir, -⟩, henv⟩, hmounts⟩ := h
  exact
    { name := hname
      image := himage
      command := hcommand
      workingDir := hworkingDir
      env := fun v hv => ⟨henv _ ⟨v, hv, by simp⟩, henv _ ⟨v, hv, by simp⟩⟩
      volumeMounts := fun v hv => ⟨hmounts _ ⟨v, hv, by simp⟩, hmounts _ ⟨v, hv, by simp⟩⟩ }

theorem Manifest.all_of_texts {ok : String → Prop} {x : Manifest} (h : ∀ s ∈ x.texts, ok s) :
    x.All ok where
  id := h x.id (List.mem_cons_self ..)
  containers c hc := Container.all_of_texts fun s hs =>
    h s (List.mem_cons_of_mem _ (List.mem_flatMap.mpr ⟨c, hc, hs⟩))

/-- **Manifest lists are not changed on the way,** as long as no text has a character that JSON
leaves alone and YAML does not: neither texts that YAML might take for something else, nor empty
ones, nor such that have to be escaped. -/
theorem Manifest.decodeList_eq (manifests : List Manifest)
    (h : ∀ x ∈ manifests, ∀ s ∈ x.texts, ∀ c ∈ s.toList,
      ¬ (0x7F ≤ c.toNat ∧ c.toNat ≤ 0x9F) ∧
        c.toNat ∉ [0x2028, 0x2029, 0xFEFF, 0xFFFE, 0xFFFF]) :
    decodeList (encodeList manifests) = .ok manifests := by
  refine decodeList_encodeList fun x hx => Manifest.all_of_texts fun s hs c hc => ?_
  exact disturbs_eq_false_iff.mpr (h x hx s hs c hc)

/-! ### Texts that cannot be read -/

/-- No text of the manifest has a character that YAML does not allow. -/
def Manifest.Readable (x : Manifest) : Prop := ∀ s ∈ x.texts, ∀ c ∈ s.toList, ¬ Refused c

/-- No text of the manifest has a character that JSON leaves alone and YAML takes for a line end. -/
def Manifest.OnOneLine (x : Manifest) : Prop := ∀ s ∈ x.texts, ∀ c ∈ s.toList, ¬ EndsLine c

theorem EnvVar.hasText {v : EnvVar} {s : String} (hs : s ∈ [v.name, v.value]) :
    HasText s v.toJson := by
  rw [toJson]
  simp only [List.mem_cons, List.not_mem_nil, or_false] at hs
  rcases hs with rfl | rfl
  · exact .field (f := ("name", .ofString v.name)) (by simp) .text
  · exact .field (f := ("value", .ofString v.value)) (by simp) .text

theorem VolumeMount.hasText {v : VolumeMount} {s : String} (hs : s ∈ [v.name, v.mountPath]) :
    HasText s v.toJson := by
  rw [toJson]
  simp only [List.mem_cons, List.not_mem_nil, or_false] at hs
  rcases hs with rfl | rfl
  · exact .field (f := ("name", .ofString v.name)) (by simp) .text
  · exact .field (f := ("mountPath", .ofString v.mountPath)) (by simp) .text

theorem Container.hasText {c : Container} {s : String} (hs : s ∈ c.texts) :
    HasText s c.toJson := by
  rw [toJson]
  simp only [texts, List.mem_append, List.mem_flatMap] at hs
  rcases hs with (hs | ⟨v, hv, hs⟩) | ⟨v, hv, hs⟩
  · simp only [List.mem_cons, List.not_mem_nil, or_false] at hs
    rcases hs with rfl | rfl | rfl | rfl
    · exact .field (f := ("name", .ofString c.name)) (by simp) .text
    · exact .field (f := ("image", .ofString c.image)) (by simp) .text
    · exact .field (f := ("command", .ofString c.command)) (by simp) .text
    · exact .field (f := ("workingDir", .ofString c.workingDir)) (by simp) .text
  · exact .field (f := ("env", .array (c.env.map EnvVar.toJson))) (by simp)
      (.item (List.mem_map_of_mem hv) (EnvVar.hasText hs))
  · exact .field (f := ("volumeMounts", .array (c.volumeMounts.map VolumeMount.toJson))) (by simp)
      (.item (List.mem_map_of_mem hv) (VolumeMount.hasText hs))

theorem Manifest.hasText {x : Manifest} {s : String} (hs : s ∈ x.texts) : HasText s x.toJson := by
  rw [toJson]
  rcases List.mem_cons.mp hs with rfl | hs
  · exact .field (f := ("id", .ofString x.id)) (by simp) .text
  · obtain ⟨c, hc, hs⟩ := List.mem_flatMap.mp hs
    exact .field (f := ("containers", .array (x.containers.map Container.toJson))) (by simp)
      (.item (List.mem_map_of_mem hc) (Container.hasText hs))

/-- **One character that YAML does not allow makes the whole list unreadable.** -/
theorem Manifest.decodeList_of_not_readable {manifests : List Manifest} {x : Manifest}
    (hx : x ∈ manifests) (hrefused : ¬ x.Readable) :
    decodeList (encodeList manifests) = .error .badYaml := by
  simp only [Readable, not_forall, not_not] at hrefused
  obtain ⟨s, hs, c, hc, hrefused⟩ := hrefused
  have htext : HasText s (.array (manifests.map toJson)) :=
    .item (List.mem_map_of_mem hx) (Manifest.hasText hs)
  have hmem := htext.mem_print (mem_literal_of_refused hc hrefused)
  rw [decodeList, blankText_encodeList, encodeList, toText, String.toList_ofList,
    Document.ofText?, tokens?, glyphs?_eq_none hmem hrefused]
  rfl

/-- Otherwise it is read as it was written, if it stands on one line. -/
theorem Manifest.decodeList_of_readable {manifests : List Manifest}
    (h : ∀ x ∈ manifests, x.Readable ∧ x.OnOneLine) :
    decodeList (encodeList manifests) = .ok manifests :=
  decodeList_of_steady fun x hx => Manifest.all_of_texts fun s hs c hc hvisible =>
    .of_not_refused hvisible ((h x hx).1 s hs c hc) ((h x hx).2 s hs c hc)

/-! ### A list in both languages -/

/-- A manifest of texts that mean something in one of the two languages. -/
def Manifest.adverse : Manifest where
  id := "~"
  containers :=
    [{ name := "- a: &b *c !d |", image := "\"\\/", command := "\x00\x1b\n\t\r # no comment",
       workingDir := "\x7b\x22x\x22: [1, null]\x7d", env := [⟨"true", "0x1F"⟩, ⟨"", "---\n..."⟩],
       ports := [⟨65535, 0⟩], volumeMounts := [⟨"%TAG", "é\u00a0", true⟩] }, {}]

theorem Manifest.decodeList_eq_adverse :
    decodeList (encodeList [adverse, {}]) = .ok [adverse, {}] := by
  have hclean : ∀ x ∈ [adverse, {}], ∀ s ∈ x.texts, Clean s := by decide +kernel
  refine decodeList_eq _ fun x hx s hs c hc => ?_
  exact disturbs_eq_false_iff.mp (hclean x hx s hs c hc)

end ControlPlane
