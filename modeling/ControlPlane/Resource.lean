import ControlPlane.Text.Pieces

/-!
# Paths of resources

The paths under which an API offers collections of resources and single resources.
-/

namespace ControlPlane.Resource

/-- The root of the versioned API. -/
def apiRoot : String := "/api/v1beta1"

/-- The path of the resources of a kind under a root, or of the one with a name. Nothing in the name
is escaped. -/
def path (root kind : String) (name : Option String) : String :=
  let collection := String.ofList (trimEnd '/' root.toList) ++ "/" ++ kind
  match name with
  | some name => collection ++ "/" ++ name
  | none => collection

end ControlPlane.Resource
