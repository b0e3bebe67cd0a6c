import ControlPlane.Proofs.Node.ContainerName

/-!
# Names that were not built here

An engine may run containers of others, under names that were not built from a manifest and a
container. Such a name should be read as one of no manifest, with the whole of it as the name of the
container.

Reading looks at separators only. It takes the pieces before the first and before the second of
them, whether or not they are escaped texts, and never looks for a suffix. So it is exactly the
names without a separator that are read as a whole: unescaping leaves separators where they are, and
a piece of a name is therefore never what the whole of it stands for. Every other foreign name is
taken for a name of its first two pieces. A container that somebody called `web--m1` is adopted as
the container `web` of the manifest `m1`, although no name that is built is so short; this is
`ContainerName.identity_adopts`.

## Main definitions

* `ContainerName.Managed`: the names of the form of built ones
* `ContainerName.whole`: a name read as a foreign one
* `ContainerName.Reads`: what a text stands for, by its separators

## Main results

* `ContainerName.unescape_append_separator`: unescaping leaves separators where they are
* `ContainerName.identity_reads`: what is read from a name, and when it is read as a whole
-/

namespace ControlPlane

namespace ContainerName

/-! ### Unescaping around a separator -/

/-- An escape has underscores at both ends and one character between them, so it never reaches into
a separator. -/
theorem replaceAll_append_separator (c : Char) (new before behind : List Char) :
    replaceAll ['_', c, '_'] new (before ++ separator ++ behind) =
      replaceAll ['_', c, '_'] new before ++ separator ++ replaceAll ['_', c, '_'] new behind := by
  have hleft : NoneAcross ['_', c, '_'] before (separator ++ behind) := by
    intro tail _ hnonempty hprefix
    match tail, hnonempty, hprefix with
    | [a], _, h => simp [separator] at h
    | [a, b], _, h => simp [separator] at h
    | a :: b :: d :: tail, _, h => simpa using h
  have hright : NoneAcross ['_', c, '_'] separator behind := by
    intro tail htail hnonempty hprefix
    obtain ⟨d, rest, rfl⟩ := List.exists_cons_of_ne_nil hnonempty
    obtain rfl : d = '-' := by
      have hmem := htail.subset (List.mem_cons_self ..)
      simpa [separator] using hmem
    simp at hprefix
  rw [List.append_assoc, replaceAll_append_of_noneAcross hleft,
    replaceAll_append_of_noneAcross hright, List.append_assoc]
  rfl

/-- **Unescaping leaves separators where they are.** So a piece of a name never contains one, and
the whole name does if it had one. -/
theorem unescape_append_separator (before behind : List Char) :
    unescape (before ++ separator ++ behind) = unescape before ++ separator ++ unescape behind := by
  rw [unescape, replaceAll_append_separator, replaceAll_append_separator]
  rfl

/-! ### Reading -/

/-- A name of the form of built ones: two escaped texts and up to eight hexadecimal digits. -/
def Managed (name : String) : Prop :=
  ∃ container manifest suffix : List Char,
    (canonical name).toList =
        escape container ++ separator ++ escape manifest ++ separator ++ suffix ∧
      suffix ≠ [] ∧ suffix.length ≤ 8 ∧ ∀ c ∈ suffix, c ∈ "0123456789abcdef".toList

/-- A name read as one of no manifest. The name of the container is all of it, without the slash in
front and unescaped. -/
def whole (name : String) : Identity :=
  ⟨"", String.ofList (unescape (canonical name).toList)⟩

/-- What a text stands for. There is one case for each number of separators that makes a difference,
and every text is in exactly one of them. -/
inductive Reads : List Char → Identity → Prop
  /-- There is no separator. -/
  | whole {text : List Char} : ¬ separator <:+: text →
      Reads text ⟨"", String.ofList (unescape text)⟩
  /-- There is one separator, and nothing has to stand behind the second piece. -/
  | pair {container manifest : List Char} : BeforeFirst separator container →
      ¬ separator <:+: manifest →
      Reads (container ++ (separator ++ manifest))
        ⟨String.ofList (unescape manifest), String.ofList (unescape container)⟩
  /-- Whatever stands behind the second separator is ignored. -/
  | longer {container manifest : List Char} (rest : List Char) :
      BeforeFirst separator container → BeforeFirst separator manifest →
      Reads (container ++ (separator ++ (manifest ++ (separator ++ rest))))
        ⟨String.ofList (unescape manifest), String.ofList (unescape container)⟩

theorem separator_ne_nil : separator ≠ [] := List.cons_ne_nil '-' ['-']

theorem splitText_of_absent {text : List Char} (h : ¬ separator <:+: text) :
    splitText separator text = [text] :=
  splitFrom_of_absent h

theorem splitText_of_beforeFirst {first : List Char} (h : BeforeFirst separator first)
    (rest : List Char) :
    splitText separator (first ++ (separator ++ rest)) = first :: splitText separator rest :=
  splitFrom_of_beforeFirst separator_ne_nil h

/-- The identity of a name is what its text stands for. -/
theorem reads_identity (name : String) : Reads (canonical name).toList (identity name) := by
  rw [identity, canonical, String.toList_ofList]
  generalize dropLead ['/'] name.toList = text
  by_cases htext : separator <:+: text
  · obtain ⟨container, rest, rfl, hcontainer⟩ := exists_beforeFirst separator_ne_nil htext
    rw [splitText_of_beforeFirst hcontainer]
    by_cases hrest : separator <:+: rest
    · obtain ⟨manifest, rest, rfl, hmanifest⟩ := exists_beforeFirst separator_ne_nil hrest
      rw [splitText_of_beforeFirst hmanifest]
      exact .longer rest hcontainer hmanifest
    · rw [splitText_of_absent hrest]
      exact .pair hcontainer hrest
  · rw [splitText_of_absent htext]
    exact .whole htext

/-- The piece before a separator is not what the whole text stands for. -/
theorem unescape_ne_of_separator (before behind : List Char) :
    String.ofList (unescape before) ≠
      String.ofList (unescape (before ++ (separator ++ behind))) := by
  intro h
  have hlength := congrArg List.length (String.ofList_injective h)
  rw [← List.append_assoc, unescape_append_separator, List.length_append, List.length_append,
    show separator.length = 2 from rfl] at hlength
  omega

/-- **When a foreign name is recognised.** A name is read by its first two separators, and it is
read as a whole, as a name of no manifest, if and only if it has none. -/
theorem identity_reads (name : String) :
    Reads (canonical name).toList (identity name) ∧
      (identity name = whole name ↔ ¬ separator <:+: (canonical name).toList) := by
  have hreads := reads_identity name
  refine ⟨hreads, ?_⟩
  rw [whole]
  generalize (canonical name).toList = text at hreads
  generalize identity name = pair at hreads
  cases hreads with
  | whole hnone => exact iff_of_true rfl hnone
  | @pair container manifest _ _ =>
    refine iff_of_false (fun hsame => ?_) fun hnone => hnone ⟨container, manifest, by simp⟩
    exact unescape_ne_of_separator _ _ (congrArg Identity.container hsame)
  | @longer container manifest rest _ _ =>
    refine iff_of_false (fun hsame => ?_) fun hnone => hnone ⟨container, _, List.append_assoc ..⟩
    exact unescape_ne_of_separator _ _ (congrArg Identity.container hsame)

/-- A name of the form of built ones has at least two separators. -/
theorem Managed.three_pieces {name : String} (h : Managed name) :
    3 ≤ (splitText separator (canonical name).toList).length := by
  obtain ⟨container, manifest, suffix, hname, -⟩ := h
  have hcut : splitText separator (canonical name).toList =
      escape container :: escape manifest :: splitText separator suffix := by
    rw [hname, escape_eq_flatMap, escape_eq_flatMap, List.append_assoc, List.append_assoc,
      List.append_assoc, splitText, splitFrom_escape, splitText, splitFrom_escape]
    rfl
  have hlast : 0 < (splitText separator suffix).length := length_splitFrom_pos ..
  rw [hcut, List.length_cons, List.length_cons]
  omega

/-- **Foreign names are adopted.** A name that is not of the form of built ones need not be
recognised as foreign. -/
theorem identity_adopts : ¬ ∀ name, ¬ Managed name → identity name = whole name := by
  intro h
  have hforeign : ¬ Managed "/web--m1" := fun hmanaged =>
    absurd hmanaged.three_pieces (by decide)
  have hread : identity "/web--m1" = ⟨"m1", "web"⟩ := by decide
  have hwhole : whole "/web--m1" = ⟨"", "web--m1"⟩ := by decide
  have hsame := h "/web--m1" hforeign
  rw [hread, hwhole] at hsame
  exact absurd hsame (by decide)

end ContainerName

end ControlPlane
