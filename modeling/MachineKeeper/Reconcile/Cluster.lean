/-
  MachineKeeper.Reconcile.Cluster — one reconcile of a cluster.

  Clusters have nothing in the backend yet. All there is to do is to see that the object can be
  read.
-/

import MachineKeeper.Reconcile.Call

namespace MachineKeeper.Reconcile

def cluster (key : Key) : ReconcilePlan .cluster (Except ReconcileFault Requeue) := do
  match ← ReconcilePlan.store (.get key) with
  | .error fault => return .error (.store fault)
  | .ok _ => return .ok .never

end MachineKeeper.Reconcile
