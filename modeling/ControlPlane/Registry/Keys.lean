/-!
# The layout of the registry

The keys under which the registry keeps its documents. Every machine has a directory of tasks and,
beside it, its manifest list.
-/

namespace ControlPlane.Keys

/-- The directory of the controllers, which the replication manager subscribes to. -/
def controllersDir : String := "/registry/controllers"

/-- The directory of the tasks of a machine. It is named by the machine and nothing is escaped, so a
slash in the name of a machine makes a directory of another depth. -/
def tasksDir (machine : String) : String := "/registry/hosts/" ++ machine ++ "/tasks"

/-- The document of a task on a machine. An id with a slash in it has its document further down,
where a listing of the directory does not see it. -/
def task (machine id : String) : String := tasksDir machine ++ "/" ++ id

/-- The manifest list of a machine. It lies beside the directory of the tasks and not in it, so that
a subscription to it is told of lists only. -/
def manifests (machine : String) : String := "/registry/hosts/" ++ machine ++ "/kubelet"

/-- The document of a controller. -/
def controller (id : String) : String := controllersDir ++ "/" ++ id

/-- The directory of the events of a container. Events are kept by the name of the container alone,
whichever manifest and machine it was run for. -/
def eventsDir (container : String) : String := "/events/" ++ container

end ControlPlane.Keys
