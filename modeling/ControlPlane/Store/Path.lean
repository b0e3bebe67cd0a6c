import ControlPlane.Text.Pieces

/-!
# Paths in the store

Keys are paths whose parts are separated by slashes. A directory is not stored; it is the set of the
keys that lie under it. Slashes at the end of a directory's name mean nothing.
-/

namespace ControlPlane.Path

/-- The text that the keys under a directory begin with. The slash at its end belongs to it, so that
a key that only continues the name of the directory does not lie under it. -/
def dirLead (dir : String) : List Char := trimEnd '/' dir.toList ++ ['/']

/-- Whether `key` begins with `lead`. -/
def begins (lead : List Char) (key : String) : Bool := (afterLead? lead key.toList).isSome

/-- Whether `key` lies under the directory whose keys begin with `lead`: directly, or at any depth
if `recursive`. The directory itself does not, and neither does its name with a slash behind it. -/
def isChild (lead : List Char) (key : String) (recursive : Bool) : Bool :=
  match afterLead? lead key.toList with
  | some rest => !rest.isEmpty && (recursive || !rest.contains '/')
  | none => false

/-- Whether `key` lies under `dir`, which may be written with slashes at its end. -/
def isUnder (dir key : String) (recursive : Bool) : Bool := isChild (dirLead dir) key recursive

end ControlPlane.Path
