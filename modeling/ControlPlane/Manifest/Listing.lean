import ControlPlane.Error
import ControlPlane.Json.Writer
import ControlPlane.Manifest
import ControlPlane.Text.Blank
import ControlPlane.Yaml.Format

/-!
# The manifest list of a host

The list is written as JSON and read as YAML, of which JSON is a part, so that lists written by
hand are understood too. A blank document is the empty list.
-/

namespace ControlPlane.Manifest

/-- The manifests of a document, in order. A blank document is no YAML list, but it is what a list
without manifests looks like to somebody who writes it by hand. What is wrong with a document is not
told. -/
def decodeList (document : String) : Except Error (List Manifest) :=
  if blankText document then .ok []
  else
    match (Yaml.Document.ofText? document.toList).bind
        (Yaml.Document.decode? (Format.list Manifest.read)) with
    | some manifests => .ok manifests
    | none => .error .badYaml

/-- The document of a list of manifests. It is one line of JSON, so that nothing depends on how YAML
is laid out. -/
def encodeList (manifests : List Manifest) : String :=
  (Json.array (manifests.map Manifest.toJson)).toText

end ControlPlane.Manifest
