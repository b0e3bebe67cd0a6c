/-!
# What can go wrong

One constructor for each cause, whose wording is `Error.message`. Two groups of causes are
recognised by callers: absence, which is a normal state for most of them, and a conflict with
something that exists already.
-/

namespace ControlPlane

/-- The causes of failure. What callers have to tell apart is said by the constructor, so that none
of them needs to look into a text. -/
inductive Error where
  /-- The store has nothing under the key. -/
  | keyNotFound (key : String)
  /-- The store has something under the key already, which a creation does not overwrite. -/
  | keyExists (key : String)
  /-- The store could not answer, so nothing is known about what it has. -/
  | store (text : String)
  /-- The container engine could not do its work. -/
  | engine (text : String)
  /-- The daemon of the container engine refused a request. Its text is its own and is not kept. -/
  | daemon
  /-- No machine holds a document of the task. -/
  | taskNotFound (id : String)
  /-- A machine holds a document of the task already, and is named. -/
  | taskExists (id machine : String)
  /-- There is no controller of that id. -/
  | controllerNotFound (id : String)
  /-- No machine can take the task: there is none, or none with room. -/
  | noMachine (task : String)
  /-- The operation is not offered, whatever it is applied to. -/
  | notOffered (operation : String)
  /-- A setting is not acceptable, so that the process does not start. -/
  | badSetting (text : String)
  /-- A stored document cannot be read; `text` names it. -/
  | undecodable (text : String)
  /-- Reading or writing a file failed. -/
  | file (text : String)
  /-- A text is not the JSON document that was expected. -/
  | badJson
  /-- A text is not the YAML document that was expected. -/
  | badYaml
deriving DecidableEq, Inhabited

namespace Error

/-- The text shown for a failure. Two different failures may have one text, so nothing is ever
decided by it. -/
def message : Error → String
  | keyNotFound key => "Key not found: " ++ key
  | keyExists key => "Key already exists: " ++ key
  | store text => "Store error: " ++ text
  | engine text => "Container runtime error: " ++ text
  | daemon => "Docker error: request refused"
  | taskNotFound id => "Task not found: " ++ id
  | taskExists id machine => "Task " ++ id ++ " already exists on " ++ machine
  | controllerNotFound id => "Replication controller not found: " ++ id
  | noMachine task => "No machine available for task " ++ task
  | notOffered operation => "Not implemented: " ++ operation
  | badSetting text => "Configuration error: " ++ text
  | undecodable text => "Decode error: " ++ text
  | file text => "IO error: " ++ text
  | badJson => "JSON error: malformed document"
  | badYaml => "YAML error: malformed document"

/-- Whether the failure says that something does not exist. Callers take it for an answer: a
directory that is not there is empty, and a task that is not there may be created. -/
def isNotFound : Error → Bool
  | keyNotFound _ | taskNotFound _ | controllerNotFound _ => true
  | _ => false

/-- Whether the failure says that something exists already. -/
def isConflict : Error → Bool
  | keyExists _ | taskExists .. => true
  | _ => false

/-- The failure to read the document called `what`. What is wrong with it is not told. -/
def malformed (what : String) : Error :=
  undecodable (what ++ ": malformed document")

end Error

end ControlPlane
