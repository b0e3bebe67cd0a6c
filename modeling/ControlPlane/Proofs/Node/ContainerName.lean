import ControlPlane.Node.ContainerName
import ControlPlane.Proofs.Text.Digits
import ControlPlane.Proofs.Text.Pieces

/-!
# Names carry identities

The name of a container is read back by cutting it at double hyphens and unescaping the first two
pieces. Both steps are exact, whatever the names of the manifest and of the container are: an
escaped text has a hyphen only between two underscores, so no double hyphen begins in it, not even
together with the separator behind it; and the escapes themselves can be told apart from left to
right, because an escape never begins with a hyphen.

The suffix plays no part in this. It only has to be there, and it tells apart the containers of one
pair.

A name is built without a slash in front and listed with one. Reading takes one slash away if there
is one, so a name that was just built is read back as well, unless the container's own name begins
with a slash: escaping leaves slashes alone.

## Main results

* `ContainerName.unescape_escape`
* `ContainerName.identity_slash_build`: the name that the engine lists gives the pair back
* `ContainerName.build_inj`: names are shared by nothing
* `ContainerName.identity_build`: what can be read from a name, listed or just built
-/

namespace ControlPlane

namespace ContainerName

/-! ### Escaping character by character -/

/-- What stands for one character. Escaping is done character by character, although it is carried
out as two replacements of the whole text. -/
def escapeChar (c : Char) : List Char :=
  if c = '_' then ['_', '_', '_'] else if c = '-' then ['_', '-', '_'] else [c]

theorem escape_eq_flatMap (s : List Char) : escape s = s.flatMap escapeChar := by
  rw [escape, replaceAll_singleton, replaceAll_singleton, List.flatMap_assoc]
  congr 1
  funext c
  by_cases h₁ : c = '_'
  · subst h₁; rfl
  · by_cases h₂ : c = '-'
    · subst h₂; rfl
    · simp [escapeChar, h₁, h₂]

/-- No escaped text begins with a hyphen, so the hyphens of a separator are not mistaken for those
of the text behind it. -/
theorem head?_escape_ne (s : List Char) : (s.flatMap escapeChar).head? ≠ some '-' := by
  cases s with
  | nil => simp
  | cons c s =>
    by_cases h₁ : c = '_'
    · simp [escapeChar, h₁]
    · by_cases h₂ : c = '-'
      · simp [escapeChar, h₂]
      · simp [escapeChar, h₁, h₂]

/-- The first replacement of `unescape` undoes the escapes of hyphens and nothing else. -/
theorem replaceAll_hyphens (s : List Char) :
    replaceAll ['_', '-', '_'] ['-'] (s.flatMap escapeChar) =
      s.flatMap fun c => if c = '_' then ['_', '_', '_'] else [c] := by
  induction s with
  | nil => rfl
  | cons c s ih =>
    rw [List.flatMap_cons, List.flatMap_cons, ← ih]
    by_cases h₁ : c = '_'
    · subst h₁
      have hhead := head?_escape_ne s
      generalize s.flatMap escapeChar = text at hhead
      change replaceAll _ _ ('_' :: '_' :: '_' :: text) = '_' :: '_' :: '_' :: replaceAll _ _ text
      -- only the last of the three underscores could begin an escaped hyphen
      have hlast : ['_', '-', '_'].isPrefixOf ('_' :: text) = false := by
        cases text with
        | nil => rfl
        | cons d text =>
          have hd : d ≠ '-' := fun h => hhead (by simp [h])
          simp [List.isPrefixOf, Ne.symm hd]
      rw [replaceAll_cons_of_mismatch rfl, replaceAll_cons_of_mismatch rfl,
        replaceAll_cons_of_mismatch hlast]
    · by_cases h₂ : c = '-'
      · subst h₂
        exact replaceAll_append (show ['_', '-', '_'] ≠ [] by simp)
      · have hprefix : ['_', '-', '_'].isPrefixOf (c :: s.flatMap escapeChar) = false := by
          simp [List.isPrefixOf, Ne.symm h₁]
        rw [escapeChar, if_neg h₁, if_neg h₂, if_neg h₁]
        exact replaceAll_cons_of_mismatch hprefix

/-- The second replacement undoes the escapes of underscores, once those of hyphens are gone. -/
theorem replaceAll_underscores (s : List Char) :
    replaceAll ['_', '_', '_'] ['_'] (s.flatMap fun c => if c = '_' then ['_', '_', '_'] else [c]) =
      s := by
  induction s with
  | nil => rfl
  | cons c s ih =>
    rw [List.flatMap_cons]
    by_cases h : c = '_'
    · subst h
      rw [if_pos rfl, replaceAll_append (by simp), ih]
      rfl
    · rw [if_neg h, List.singleton_append, replaceAll_cons_of_mismatch, ih]
      simp [List.isPrefixOf, Ne.symm h]

/-- **Unescaping undoes escaping,** whatever the text is. -/
theorem unescape_escape (s : List Char) : unescape (escape s) = s := by
  rw [unescape, escape_eq_flatMap, replaceAll_hyphens, replaceAll_underscores]

/-! ### Cutting a name -/

/-- A separator behind an escaped text is the first one there is. -/
theorem splitFrom_escape (s piece rest : List Char) :
    splitFrom separator piece 0 (s.flatMap escapeChar ++ (separator ++ rest)) =
      (piece.reverse ++ s.flatMap escapeChar) :: splitText separator rest := by
  induction s generalizing piece with
  | nil =>
    have hsep : separator ≠ [] := by simp [separator]
    have hcut : splitFrom separator piece 0 (separator ++ rest) = _ := splitFrom_append hsep
    simpa using hcut
  | cons c s ih =>
    rw [List.flatMap_cons, List.append_assoc]
    generalize s.flatMap escapeChar ++ (separator ++ rest) = text at ih
    by_cases h₁ : c = '_'
    · subst h₁
      change splitFrom _ _ 0 ('_' :: '_' :: '_' :: text) = _
      rw [splitFrom_cons_of_mismatch rfl, splitFrom_cons_of_mismatch rfl,
        splitFrom_cons_of_mismatch rfl, ih]
      simp [escapeChar]
    · by_cases h₂ : c = '-'
      · subst h₂
        change splitFrom _ _ 0 ('_' :: '-' :: '_' :: text) = _
        rw [splitFrom_cons_of_mismatch rfl, splitFrom_cons_of_mismatch rfl,
          splitFrom_cons_of_mismatch rfl, ih]
        simp [escapeChar]
      · have hprefix : separator.isPrefixOf (c :: text) = false := by
          simp [separator, List.isPrefixOf, Ne.symm h₂]
        rw [escapeChar, if_neg h₁, if_neg h₂, List.singleton_append,
          splitFrom_cons_of_mismatch hprefix, ih]
        simp

/-- The pieces of a built name begin with the escaped name of the container and the escaped id of
the manifest. -/
theorem splitText_build (manifest container : String) (suffix : UInt32) :
    splitText separator (build manifest container suffix).toList =
      escape container.toList :: escape manifest.toList ::
        splitText separator (hexText suffix.toNat) := by
  simp only [build, String.toList_ofList, List.append_assoc, escape_eq_flatMap]
  rw [splitText, splitFrom_escape, splitText, splitFrom_escape]
  rfl

/-- The slash that the engine puts in front is taken away, and nothing else. -/
theorem dropLead_slash (name : String) : dropLead ['/'] ("/" ++ name).toList = name.toList := by
  simp [dropLead, afterLead?]

@[simp] theorem canonical_slash (name : String) : canonical ("/" ++ name) = name := by
  rw [canonical, dropLead_slash, String.ofList_toList]

/-- **The name that the engine lists for a built name gives back the pair that it was built
from.** -/
theorem identity_slash_build (manifest container : String) (suffix : UInt32) :
    identity ("/" ++ build manifest container suffix) = ⟨manifest, container⟩ := by
  rw [identity, dropLead_slash, splitText_build]
  simp [unescape_escape]

/-! ### Names with and without a slash in front -/

variable {manifest container manifest' container' : String} {suffix suffix' : UInt32}

/-- A slash that the container's name begins with stands in front of the built name. -/
theorem build_slash (manifest container : String) (suffix : UInt32) :
    build manifest ("/" ++ container) suffix = "/" ++ build manifest container suffix := by
  have hescape : escape ("/" ++ container).toList = '/' :: escape container.toList := by
    rw [String.toList_append, escape_eq_flatMap, escape_eq_flatMap]
    rfl
  rw [build, build, hescape, ← String.toList_inj, String.toList_append, String.toList_ofList,
    String.toList_ofList, String.toList_ofList, List.singleton_append]
  simp only [List.cons_append]

/-- No other built name begins with a slash. So a slash in front is always the one of the engine,
unless the name of the container begins with one. -/
theorem dropLead_build (h : container.toList.head? ≠ some '/') :
    dropLead ['/'] (build manifest container suffix).toList =
      (build manifest container suffix).toList := by
  have hhead : (build manifest container suffix).toList.head? ≠ some '/' := by
    simp only [build, String.toList_ofList, List.append_assoc, escape_eq_flatMap]
    generalize container.toList = text at h
    cases text with
    | nil => simp [separator]
    | cons c text =>
      rw [List.flatMap_cons, List.append_assoc, escapeChar]
      split
      · simp
      · split
        · simp
        · exact h
  generalize (build manifest container suffix).toList = text at hhead
  cases text with
  | nil => rfl
  | cons c text =>
    have hc : '/' ≠ c := fun heq => hhead (congrArg some heq.symm)
    simp [dropLead, afterLead?, hc]

/-- A built name is read back as it is, unless the name of the container begins with a slash: then
that slash is lost. -/
theorem identity_eq_iff : identity (build manifest container suffix) = ⟨manifest, container⟩ ↔
    container.toList.head? ≠ some '/' := by
  constructor
  · intro hidentity hslash
    obtain ⟨rest, hrest⟩ : ∃ rest, container = "/" ++ rest := by
      obtain ⟨rest, hrest⟩ := List.head?_eq_some_iff.mp hslash
      refine ⟨String.ofList rest, ?_⟩
      rw [← String.toList_inj, hrest, String.toList_append, String.toList_ofList,
        String.toList_ofList, List.singleton_append]
    subst hrest
    rw [build_slash, identity_slash_build] at hidentity
    have hlength := congrArg (fun pair : Identity => pair.container.toList.length) hidentity
    simp at hlength
  · intro hslash
    have hlisted := identity_slash_build manifest container suffix
    rw [identity, dropLead_slash] at hlisted
    rw [identity, dropLead_build hslash, hlisted]

/-- **Names are shared by nothing:** neither by two pairs nor by two containers of one pair. -/
theorem build_inj : build manifest container suffix = build manifest' container' suffix' ↔
    manifest = manifest' ∧ container = container' ∧ suffix = suffix' := by
  constructor
  · intro hname
    have hpair := identity_slash_build manifest container suffix
    rw [hname, identity_slash_build, Identity.mk.injEq] at hpair
    obtain ⟨rfl, rfl⟩ := hpair
    have hhex : hexText suffix.toNat = hexText suffix'.toNat := by
      have htext := congrArg String.toList hname
      rw [build, build, String.toList_ofList, String.toList_ofList] at htext
      exact List.append_cancel_left htext
    have hbound : ∀ n : UInt32, n.toNat < 16 ^ 16 := fun n =>
      Nat.lt_trans n.toNat_lt (by decide)
    have hvalue := congrArg (numeral? 16 hexValue?) hhex
    rw [numeral?_hexText (hbound suffix), numeral?_hexText (hbound suffix')] at hvalue
    exact ⟨rfl, rfl, UInt32.toNat_inj.mp (Option.some.inj hvalue)⟩
  · rintro ⟨rfl, rfl, rfl⟩
    rfl

/-- **Names carry identities.** Whatever the texts and the suffix are, the listed name gives back
the pair that it was built from; so does the name as it was built, if and only if the container's
name does not begin with a slash; and no other pair has the same name, whatever its suffix. -/
theorem identity_build (manifest container : String) (suffix : UInt32) :
    identity ("/" ++ build manifest container suffix) = ⟨manifest, container⟩ ∧
      (identity (build manifest container suffix) = ⟨manifest, container⟩ ↔
        container.toList.head? ≠ some '/') ∧
      ∀ manifest' container' suffix',
        "/" ++ build manifest container suffix = "/" ++ build manifest' container' suffix' ↔
          manifest = manifest' ∧ container = container' ∧ suffix = suffix' := by
  refine ⟨identity_slash_build manifest container suffix, identity_eq_iff, ?_⟩
  intro manifest' container' suffix'
  rw [String.append_right_inj, build_inj]

/-- A name that is built of hyphens and underscores alone, and one whose slash is lost. -/
theorem identity_build_joints :
    identity ("/" ++ build "_-_" "-_-" 255) = ⟨"_-_", "-_-"⟩ ∧
      identity (build "m1" "/web" 7) ≠ ⟨"m1", "/web"⟩ :=
  ⟨(identity_build "_-_" "-_-" 255).1, fun hidentity =>
    (identity_build "m1" "/web" 7).2.1.mp hidentity rfl⟩

end ContainerName

end ControlPlane
