import ControlPlane.Cluster
import ControlPlane.Controller
import ControlPlane.Engine.Call
import ControlPlane.Engine.Daemon
import ControlPlane.Engine.ImageReference
import ControlPlane.Engine.Memory
import ControlPlane.Error
import ControlPlane.Event
import ControlPlane.Feed
import ControlPlane.Format
import ControlPlane.Json.Format
import ControlPlane.Json.Reader
import ControlPlane.Json.Value
import ControlPlane.Json.Writer
import ControlPlane.KeyMap
import ControlPlane.Manifest
import ControlPlane.Manifest.Listing
import ControlPlane.Node.ContainerName
import ControlPlane.Node.ContainerSpec
import ControlPlane.Node.Pass
import ControlPlane.Node.SyncLoop
import ControlPlane.Node.Watcher
import ControlPlane.Placement
import ControlPlane.Placement.Generator
import ControlPlane.Placement.Policy
import ControlPlane.Program
import ControlPlane.Registry
import ControlPlane.Registry.Keys
import ControlPlane.Rehearsal.Fault
import ControlPlane.Rehearsal.Schedule
import ControlPlane.Rehearsal.Steps
import ControlPlane.Rehearsal.Wiring
import ControlPlane.Rehearsal.World
import ControlPlane.Replication.Control
import ControlPlane.Replication.Manager
import ControlPlane.Replication.Pass
import ControlPlane.Resource
import ControlPlane.Settings
import ControlPlane.Span
import ControlPlane.Store.Basic
import ControlPlane.Store.Call
import ControlPlane.Store.Node
import ControlPlane.Store.Path
import ControlPlane.Task
import ControlPlane.Text.Blank
import ControlPlane.Text.Digits
import ControlPlane.Text.Pieces
import ControlPlane.Work
import ControlPlane.Yaml.Format
import ControlPlane.Yaml.Node
import ControlPlane.Yaml.Node.OfTokens
import ControlPlane.Yaml.Source
import ControlPlane.Yaml.Token
import ControlPlane.Yaml.Token.OfSource
import ControlPlane.Yaml.Token.Property
import ControlPlane.Yaml.Token.Scalar
import ControlPlane.Proofs.Engine.ImageReference
import ControlPlane.Proofs.Node.ContainerName
import ControlPlane.Proofs.Node.ForeignName
import ControlPlane.Proofs.Node.Pacing
import ControlPlane.Proofs.Node.Syncing
import ControlPlane.Proofs.Replication.Following
import ControlPlane.Proofs.Program.Ensures
import ControlPlane.Proofs.Node.Convergence
import ControlPlane.Proofs.Json.Plain
import ControlPlane.Proofs.Json.Reading
import ControlPlane.Proofs.Format
import ControlPlane.Proofs.Manifest
import ControlPlane.Proofs.KeyMap
import ControlPlane.Proofs.Task
import ControlPlane.Proofs.Yaml.Scalar
import ControlPlane.Proofs.Yaml.Scanning
import ControlPlane.Proofs.Yaml.Composing
import ControlPlane.Proofs.Yaml.Reading
import ControlPlane.Proofs.Manifest.Listing
import ControlPlane.Proofs.Registry.Documents
import ControlPlane.Proofs.Registry.Consistency
import ControlPlane.Proofs.Registry.Listing
import ControlPlane.Proofs.Placement
import ControlPlane.Proofs.Replication.Pass
import ControlPlane.Proofs.Store.Changes
import ControlPlane.Proofs.Feed
import ControlPlane.Proofs.Store.Watching
import ControlPlane.Proofs.Store.Revisions
import ControlPlane.Proofs.Store.Mirroring
import ControlPlane.Proofs.Node.Keeping
import ControlPlane.Proofs.Node.Agent
import ControlPlane.Proofs.Node.BoundTasks
import ControlPlane.Proofs.Controller
import ControlPlane.Proofs.Registry.Controllers
import ControlPlane.Proofs.Replication.Scan
import ControlPlane.Proofs.Replication.Effects
import ControlPlane.Proofs.Text.Order
import ControlPlane.Proofs.Store.Entries
import ControlPlane.Proofs.Store.Ledger
import ControlPlane.Proofs.Store.Answering
import ControlPlane.Proofs.Store.Living
import ControlPlane.Proofs.Node.Following
import ControlPlane.Proofs.Registry.Binding
import ControlPlane.Proofs.Registry.Unbinding
import ControlPlane.Proofs.Placement.FirstFit
import ControlPlane.Proofs.Placement.Exactness
import ControlPlane.Proofs.Placement.Rotation
import ControlPlane.Proofs.Node.Subscribing
import ControlPlane.Proofs.Registry.ControllerMap
import ControlPlane.Proofs.Store.Isolation
import ControlPlane.Proofs.Registry.Lookup
import ControlPlane.Proofs.Registry.Readability
import ControlPlane.Proofs.Replication.Repetition
import ControlPlane.Proofs.Json.Documents
import ControlPlane.Proofs.Node.Idling
import ControlPlane.Proofs.Program.Interleaving
import ControlPlane.Proofs.Store.Values
import ControlPlane.Proofs.Registry.Concurrency
import ControlPlane.Proofs.Rehearsal.PassLock
import ControlPlane.Proofs.Replication.Exclusion
import ControlPlane.Proofs.Replication.Succession
import ControlPlane.Proofs.Rehearsal.Together
import ControlPlane.Proofs.Program.Exchanges
import ControlPlane.Proofs.Replication.Calls
import ControlPlane.Proofs.Node.Failures
import ControlPlane.Proofs.Registry.Creation
import ControlPlane.Proofs.Registry.Retrying
import ControlPlane.Proofs.Node.HostPorts
import ControlPlane.Proofs.Registry.Layout
import ControlPlane.Proofs.Registry.Selection
import ControlPlane.Proofs.Store.Appending
import ControlPlane.Proofs.Json.Restating
