import ControlPlane.Engine.Call

/-!
# An engine in memory

A container engine that only keeps books: containers come with creation, run from their start to
their stop, and are listed while they run. Whether a container is listed and whether it runs are
kept apart, since a listing may be older than what an inspection finds.
-/

namespace ControlPlane.Engine

/-- What an engine knows of a container, also of one that has ended. -/
structure Held where
  id : String
  /-- The name as the engine gives it, with a slash in front. -/
  name : String
  running : Bool
  /-- Whether the container is among the listed ones. It is when it was started, unless somebody
  makes the listing older than it is. -/
  listed : Bool
deriving DecidableEq, Inhabited

/-- An engine in memory. -/
structure Memory where
  /-- The containers in the order in which they were created, in which they are also listed. -/
  containers : List Held := []
  /-- How many creations were asked for. Ids are made from it, and a creation that is refused uses
  up an id too. -/
  creations : Nat := 0
deriving DecidableEq, Inhabited

namespace Memory

/-- The container of an id. -/
def find? (m : Memory) (id : String) : Option Held :=
  m.containers.find? (·.id == id)

/-- Changes the containers of an id. -/
def modify (m : Memory) (id : String) (f : Held → Held) : Memory :=
  { m with containers := m.containers.map fun held => if held.id = id then f held else held }

/-- Changes the containers of an id, of which there has to be one. -/
def change (m : Memory) (id : String) (f : Held → Held) : Except Error Unit × Memory :=
  if (m.find? id).isSome then (.ok (), m.modify id f)
  else (.error (.engine ("no such container: " ++ id)), m)

/-- The listed containers. -/
def summaries (m : Memory) : List Summary :=
  (m.containers.filter Held.listed).map fun held => ⟨held.id, held.name⟩

/-- Counts a creation that is not carried out, so that later ids do not depend on what was refused.
-/
def refuse : Call → Memory → Memory
  | .create _, m => { m with creations := m.creations + 1 }
  | _, m => m

/-- Answers a call. Images are always there, and a name may be given twice. -/
def perform : (c : Call) → Memory → Except Error c.Result × Memory
  | .ping, m => (.ok (), m)
  | .list, m => (.ok m.summaries, m)
  | .inspect id, m =>
    match m.find? id with
    | some held => (.ok (⟨held.name, held.running⟩ : Details), m)
    | none => (.error (.engine ("no such container: " ++ id)), m)
  | .pull _, m => (.ok (), m)
  | .create spec, m =>
    let creations := m.creations + 1
    let id := "c" ++ toString creations
    let created : Held := ⟨id, "/" ++ spec.name, false, false⟩
    (.ok id, { containers := m.containers ++ [created], creations := creations })
  | .start id, m => m.change id fun held => { held with running := true, listed := true }
  | .stop id _, m => m.change id fun held => { held with running := false, listed := false }

end Memory

end ControlPlane.Engine
