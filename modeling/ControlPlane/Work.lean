import ControlPlane.Error
import ControlPlane.Program

/-!
# Work that may fail

`Work I α` is a program over an interface that ends with a result or with an error. Absence is an
error that many callers take for a normal state; `Work.orNone` turns it into one.
-/

namespace ControlPlane

/-- Work over an interface that may fail. What the calls before a failure have done stays done,
since nothing is undone by it. -/
abbrev Work (I : Interface) (α : Type) := ExceptT Error (Program I) α

namespace Work

variable {I J : Interface} {α : Type}

/-- The same work with its calls made through another interface. It fails where it would have failed
by itself. -/
def through (f : (c : I.Call) → Program J (I.Answer c)) (w : Work I α) : Work J α :=
  ExceptT.mk (w.run.expand f)

/-- The result of `w`; none if it fails because something does not exist. Only that failure becomes
an answer; the others go through. -/
def orNone (w : Work I α) : Work I (Option α) :=
  tryCatch (some <$> w) fun e => if e.isNotFound then pure none else throw e

end Work

end ControlPlane
