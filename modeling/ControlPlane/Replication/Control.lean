import ControlPlane.Cluster
import ControlPlane.Replication.Pass

/-!
# Control of replicas on a cluster

The calls of a replication pass, carried out by a cluster client. A replica starts from the template
of its controller under a new id and is placed like any other task.
-/

namespace ControlPlane

/-- The calls by which replicas are controlled on a cluster: those of cluster work, and two that
need no cluster. -/
inductive ControlCall where
  | cluster (c : ClusterCall)
  /-- A new id for a task, which is random and not looked up anywhere. -/
  | freshId
  /-- The pause between two creations, whose length is not decided here. -/
  | pause
deriving DecidableEq, Inhabited

/-- The answer to a call. -/
def ControlCall.Answer : ControlCall → Type
  | cluster c => c.Answer
  | freshId => String
  | pause => Unit

/-- The interface by which replicas are controlled on a cluster. -/
def controlCalls : Interface where
  Call := ControlCall
  Answer := ControlCall.Answer

namespace Replication

/-- Work on the cluster, made through the calls of replica control. -/
def onCluster {α : Type} (w : ClusterWork α) : Work controlCalls α :=
  w.through fun c => Program.ask (I := controlCalls) (.cluster c)

/-- Carries out a call of a replication pass. New replicas are placed by a scheduler. What becomes
of a creation is dropped here, so a pass goes on as if it had come off, and the next pass counts
again; a deletion and a listing report their failures. -/
def controlBy (cluster : Cluster) (schedule : Scheduler) :
    (c : ReplicaCall) → Program controlCalls c.Answer
  | .list selector => (onCluster (cluster.listTasks selector)).run
  | .create controller => do
    let id : String ← Program.ask (I := controlCalls) .freshId
    let _ ← (onCluster (cluster.createTaskBy schedule (controller.replica id))).run
    return ()
  | .delete id => (onCluster (cluster.deleteTask id)).run
  | .pause => Program.ask (I := controlCalls) .pause

/-- Carries out a call of a replication pass as the policy of the cluster has it. -/
def control (cluster : Cluster) (c : ReplicaCall) : Program controlCalls c.Answer :=
  controlBy cluster cluster.place c

end Replication

end ControlPlane
