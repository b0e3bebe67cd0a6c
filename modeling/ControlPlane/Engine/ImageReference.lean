import ControlPlane.Text.Pieces

/-!
# References to images

An image is named by a repository and a tag. The engine would fetch every tag of a repository that
is named alone, so a missing tag is supplied. A colon belongs to a tag only behind the last slash,
since a registry may be given with its port; a digest takes the place of a tag.
-/

namespace ControlPlane.Engine

/-- The repository and the tag to be fetched for an image. An image with a digest is given as a
whole, with no tag, and one without a tag has the latest one. A colon at the very end is followed by
the empty tag, which is passed on as it is. -/
def imageReference (image : String) : String × String :=
  if (afterLast '/' image.toList).contains '@' then (image, "")
  else
    match splitLast? ':' image.toList with
    | some (repository, tag) =>
      if tag.contains '/' then (image, "latest")
      else (String.ofList repository, String.ofList tag)
    | none => (image, "latest")

end ControlPlane.Engine
