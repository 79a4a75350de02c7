/-
  MachineKeeper.Backend.Fault — why a backend call failed.

  Absence is no fault: asking for an instance that is not there is answered, not refused. A
  failed create or delete says nothing about whether the instance is there afterwards.
-/

import MachineKeeper.Clock.Context

namespace MachineKeeper

inductive BackendFault where
  | connection (reason : String)
  | create (name reason : String)
  | delete (name reason : String)
  | query (name reason : String)
  | interrupted (why : Interruption)
  deriving DecidableEq

namespace BackendFault

def message : BackendFault → String
  | .connection reason => "failed to connect to Incus: " ++ reason
  | .create name reason => "failed to create instance " ++ name ++ ": " ++ reason
  | .delete name reason => "failed to delete instance " ++ name ++ ": " ++ reason
  | .query name reason => "failed to query instance " ++ name ++ ": " ++ reason
  | .interrupted why => "backend call interrupted: " ++ why.message

/-- The reason recorded in the condition of the object. -/
def reasonCode : BackendFault → String
  | .connection _ => "BackendUnavailable"
  | .create .. => "InstanceCreateFailed"
  | .delete .. => "InstanceDeleteFailed"
  | .query .. => "InstanceQueryFailed"
  | .interrupted _ => "ReconcileInterrupted"

/-- A cancellation only comes with shutdown; everything else is tried again. -/
def retryable : BackendFault → Bool
  | .interrupted .cancelled => false
  | _ => true

end BackendFault

end MachineKeeper
