import ControlPlane.Engine.Daemon
import ControlPlane.Proofs.Program.Ensures
import ControlPlane.Proofs.Text.Pieces

/-!
# What a pull fetches

An image is read as a repository and a tag, and a pull makes one request that names both. Three
searches go over the same text: for the last part, for a digest mark in it and for the last colon.
They agree because of one fact (`IsLast.mem_iff`): the last colon stands in the last part exactly if
no slash follows it. So a colon that belongs to the port of a registry is never taken for that of a
tag, wherever and how often slashes and colons occur.

A tag that is cut off may be empty. The engine takes a pull without a tag for one of all tags, which
is what the reading is there to avoid; it happens for the images that end in a colon, and for no
others.

## Main definitions

* `Engine.Names`: the repository and the tag that an image without a digest stands for

## Main results

* `Engine.Names.unique`: there is one way to cut an image
* `Engine.names_imageReference`: and it is cut that way
* `Engine.pull_names_tag`: what the request of a pull names
* `Engine.pull_names_no_tag`: the tag may be missing
-/

namespace ControlPlane.Engine

/-- The image stands for this repository and this tag. `last` is the part of the image behind its
last slash, and the image has no digest there. -/
structure Names (image : String) (last : List Char) (repository tag : String) : Prop where
  noColon : ':' ∉ tag.toList
  noSlash : '/' ∉ tag.toList
  cut : repository ++ ":" ++ tag = image ∨ tag = "latest" ∧ repository = image ∧ ':' ∉ last

variable {image repository tag : String} {last : List Char}

theorem toList_tagged (repository tag : String) :
    (repository ++ ":" ++ tag).toList = repository.toList ++ ':' :: tag.toList := by
  have hcolon : ":".toList = [':'] := by decide
  rw [String.toList_append, String.toList_append, hcolon, List.append_assoc]
  rfl

/-! ### One way to cut -/

/-- What is cut off as a tag begins in the last part. -/
theorem mem_last_of_tagged (hlast : IsLast '/' image.toList last) (hcolon : ':' ∉ tag.toList)
    (hslash : '/' ∉ tag.toList) (hcut : repository ++ ":" ++ tag = image) : ':' ∈ last := by
  rw [← hcut, toList_tagged] at hlast
  exact (hlast.mem_iff (by decide) hcolon).mpr hslash

/-- An image does not stand for anything else. -/
theorem Names.unique {repository' tag' : String} (hlast : IsLast '/' image.toList last)
    (h : Names image last repository tag) (h' : Names image last repository' tag') :
    repository = repository' ∧ tag = tag' := by
  rcases h.cut with hcut | ⟨rfl, rfl, hnone⟩ <;> rcases h'.cut with hcut' | ⟨rfl, rfl, hnone'⟩
  · have hsplit := congrArg (fun s : String => splitLast? ':' s.toList) (hcut.trans hcut'.symm)
    simp only [toList_tagged, splitLast?_append _ h.noColon, splitLast?_append _ h'.noColon,
      Option.some.injEq, Prod.mk.injEq, String.toList_inj] at hsplit
    exact hsplit
  · exact absurd (mem_last_of_tagged hlast h.noColon h.noSlash hcut) hnone'
  · exact absurd (mem_last_of_tagged hlast h'.noColon h'.noSlash hcut') hnone
  · exact ⟨rfl, rfl⟩

/-- The tag is missing where the image ends in a colon, and only there. -/
theorem Names.tag_eq_empty_iff (hlast : IsLast '/' image.toList last)
    (h : Names image last repository tag) : tag = "" ↔ ∃ name, image = name ++ ":" := by
  constructor
  · rintro rfl
    rcases h.cut with hcut | ⟨hlatest, -⟩
    · exact ⟨repository, by rw [← hcut, String.append_empty]⟩
    · exact absurd hlatest (by decide)
  · rintro ⟨name, rfl⟩
    have hempty : Names (name ++ ":") last name "" :=
      ⟨by decide, by decide, .inl String.append_empty⟩
    exact (h.unique hlast hempty).2

/-! ### Reading -/

theorem imageReference_digest (hlast : IsLast '/' image.toList last) (h : '@' ∈ last) :
    imageReference image = (image, "") := by
  rw [imageReference, isLast_iff.mp hlast, if_pos (by simpa using h)]

/-- **An image is read as what it stands for.** It is cut at its last colon if that stands in the
last part. -/
theorem names_imageReference (hlast : IsLast '/' image.toList last) (h : '@' ∉ last) :
    Names image last (imageReference image).1 (imageReference image).2 := by
  have hlatest : ':' ∉ last → Names image last image "latest" := fun hnone =>
    ⟨by decide, by decide, .inr ⟨rfl, rfl, hnone⟩⟩
  rw [imageReference, isLast_iff.mp hlast, if_neg (by simpa using h)]
  by_cases hcolon : ':' ∈ image.toList
  · obtain ⟨front, behind, hcut, hbehind⟩ := exists_eq_append_last hcolon
    have hmem : ':' ∈ last ↔ '/' ∉ behind := by
      rw [hcut] at hlast
      exact hlast.mem_iff (by decide) hbehind
    rw [hcut, splitLast?_append front hbehind]
    by_cases hslash : '/' ∈ behind
    · simpa [hslash] using hlatest fun hcolon => hmem.mp hcolon hslash
    · have hwhole : String.ofList front ++ ":" ++ String.ofList behind = image := by
        rw [← String.toList_inj, toList_tagged, String.toList_ofList, String.toList_ofList, hcut]
      have htagged : Names image last (String.ofList front) (String.ofList behind) :=
        ⟨by simpa using hbehind, by simpa using hslash, .inl hwhole⟩
      simpa [hslash] using htagged
  · rw [splitLast?_of_notMem hcolon]
    exact hlatest fun hmem => hcolon (hlast.subset hmem)

/-! ### Pulling -/

/-- A pull makes one request, and the reply decides whether it succeeds. -/
theorem run_pull (image : String) :
    (viaDaemon (.pull image)).run = .call (pullRequest image) fun reply : Reply =>
      .done (if reply.accepted && pullSucceeded reply.body then .ok () else .error .daemon) := by
  refine congrArg (Program.call (I := daemonCalls) (pullRequest image)) (funext fun reply => ?_)
  change ((if Reply.accepted reply = true then (pure reply : DaemonWork Reply)
    else throw .daemon) >>= fun reply =>
      if pullSucceeded (Reply.body reply) = true then pure () else throw .daemon).run = _
  cases Reply.accepted reply with
  | false => rfl
  | true =>
    change (if pullSucceeded (Reply.body reply) = true then (pure () : DaemonWork Unit)
      else throw .daemon).run = _
    cases pullSucceeded (Reply.body reply) <;> rfl

/-- **What a pull fetches.** An image with a digest is fetched as it is. Any other one is read as a
repository and a tag, in the only way there is, and it is one tag unless the image ends in a colon.
A pull makes one request, which names what was read. -/
theorem pull_names_tag (hlast : IsLast '/' image.toList last) :
    ('@' ∈ last → imageReference image = (image, "")) ∧
    ('@' ∉ last → ∃ repository tag, imageReference image = (repository, tag) ∧
      Names image last repository tag ∧ (tag = "" ↔ ∃ name, image = name ++ ":") ∧
        ∀ repository' tag', Names image last repository' tag' →
          repository' = repository ∧ tag' = tag) ∧
    ∀ {σ : Type} (daemon : (r : Request) → σ → Reply × σ) (s : σ), ∃ r : Request,
      (viaDaemon (.pull image)).run.asked daemon s = [(r, s)] ∧
        r.query = [("fromImage", (imageReference image).1), ("tag", (imageReference image).2)] := by
  refine ⟨imageReference_digest hlast, fun h => ?_, fun daemon s => ⟨pullRequest image, ?_, rfl⟩⟩
  · have hnames := names_imageReference hlast h
    exact ⟨_, _, rfl, hnames, hnames.tag_eq_empty_iff hlast, fun _ _ hother =>
      hother.unique hlast hnames⟩
  · rw [run_pull]
    rfl

/-- A registry with a port, whose colon is not the last one. -/
theorem pull_names_tag_registry :
    IsLast '/' "registry:5000/app:v2".toList "app:v2".toList ∧ '@' ∉ "app:v2".toList ∧
      imageReference "registry:5000/app:v2" = ("registry:5000/app", "v2") ∧
      Names "registry:5000/app:v2" "app:v2".toList "registry:5000/app" "v2" := by
  have hlast : IsLast '/' "registry:5000/app:v2".toList "app:v2".toList := by decide
  have hplain : '@' ∉ "app:v2".toList := by decide
  have hread : imageReference "registry:5000/app:v2" = ("registry:5000/app", "v2") := by decide
  obtain ⟨repository, tag, heq, hnames, -⟩ := (pull_names_tag hlast).2.1 hplain
  rw [hread, Prod.mk.injEq] at heq
  obtain ⟨rfl, rfl⟩ := heq
  exact ⟨hlast, hplain, hread, hnames⟩

/-- **The tag may be missing.** An image that ends in a colon is read with an empty tag, and so all
tags are fetched. -/
theorem pull_names_no_tag :
    ¬ ∀ (image : String) (last : List Char), IsLast '/' image.toList last → '@' ∉ last →
      ∃ repository tag, imageReference image = (repository, tag) ∧ tag ≠ "" ∧
        Names image last repository tag := by
  intro h
  have hread : imageReference "nginx:" = ("nginx", "") := by decide
  obtain ⟨repository, tag, heq, hnonempty, -⟩ :=
    h "nginx:" "nginx:".toList (by decide) (by decide)
  rw [hread, Prod.mk.injEq] at heq
  exact hnonempty heq.2.symm

end ControlPlane.Engine
