/-
  MachineKeeper.Reconcile.Fault — why a reconcile was left unresolved.

  Whatever the cause, the next delivery of the same key starts again from what is stored.
-/

import MachineKeeper.Backend.Fault
import MachineKeeper.Store.Fault

namespace MachineKeeper

inductive ReconcileFault where
  | backend (fault : BackendFault)
  | store (fault : StoreFault)
  /-- Create reported success, but the instance is not there. -/
  | createUnconfirmed (instanceName : String)
  /-- Delete reported success, but the instance is still there. -/
  | deleteUnconfirmed (instanceName : String)
  deriving DecidableEq

namespace ReconcileFault

def message : ReconcileFault → String
  | .backend fault => fault.message
  | .store fault => "object store error: " ++ fault.message
  | .createUnconfirmed name => "instance " ++ name ++ " not found after create reported success"
  | .deleteUnconfirmed name =>
    "instance " ++ name ++ " still present after delete reported success"

/-- The reason recorded in the condition of the object. -/
def reason : ReconcileFault → String
  | .backend fault => fault.reasonCode
  | .store _ => "StoreWriteFailed"
  | .createUnconfirmed _ | .deleteUnconfirmed _ => "InstanceUnconfirmed"

def retryable : ReconcileFault → Bool
  | .backend fault => fault.retryable
  | _ => true

end ReconcileFault

end MachineKeeper
