import ControlPlane.Text.Digits
import ControlPlane.Text.Pieces

/-!
# Names of containers

A container that is run for a manifest is named after both: the escaped name of the container, the
escaped id of the manifest and a random suffix in hexadecimal, separated by two hyphens. An escaped
text contains no two hyphens in a row, so the parts can be told apart again. The engine puts a slash
in front of the names that it lists.

Names are read by their separators alone, and the suffix is never looked for. A name without a
separator identifies a container of the manifest with the empty id, which no list wants unless it
has such a manifest. Any other name is taken for one of its first two pieces, whoever gave it: a
container that somebody else has called `web--m1` is the container `web` of the manifest `m1` here.
-/

namespace ControlPlane

/-- What a container is run for: a container of a manifest, by their names. Two containers of one
identity are the same thing run twice. -/
structure Identity where
  manifest : String
  container : String
deriving DecidableEq, Inhabited

namespace ContainerName

/-- What separates the parts of a name. A single hyphen would not do, since ids and names often have
one. -/
def separator : List Char := ['-', '-']

/-- A text without two hyphens in a row that stands for `s`. Underscores have to be replaced as
well, and first, since they are what the replacement of a hyphen consists of. -/
def escape (s : List Char) : List Char :=
  replaceAll ['-'] ['_', '-', '_'] (replaceAll ['_'] ['_', '_', '_'] s)

/-- The text that an escaped one stands for. The replacements are undone in the opposite order; a
text that is no escaped one is changed where it happens to look like one. -/
def unescape (s : List Char) : List Char :=
  replaceAll ['_', '_', '_'] ['_'] (replaceAll ['_', '-', '_'] ['-'] s)

/-- The name of a container of a manifest with a suffix. An engine has a name only once, and a
container that has ended keeps its own, so each attempt has a suffix of its own. -/
def build (manifest container : String) (suffix : UInt32) : String :=
  String.ofList (escape container.toList ++ separator ++ escape manifest.toList ++ separator ++
    hexText suffix.toNat)

/-- The name without the slash that the engine puts in front. Names are compared in this form only,
as the engine lists them with the slash and is given them without. -/
def canonical (name : String) : String := String.ofList (dropLead ['/'] name.toList)

/-- What the container of a name is run for. The first piece is the container and the second the
manifest; the suffix is in the third, which is not looked at, and need not be there. -/
def identity (name : String) : Identity :=
  match splitText separator (dropLead ['/'] name.toList) with
  | container :: manifest :: _ =>
    ⟨String.ofList (unescape manifest), String.ofList (unescape container)⟩
  | [container] => ⟨"", String.ofList (unescape container)⟩
  | [] => ⟨"", ""⟩

end ContainerName

end ControlPlane
