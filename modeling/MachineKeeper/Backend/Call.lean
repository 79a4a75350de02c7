/-
  MachineKeeper.Backend.Call — the calls a backend answers.

  Create and delete return when the instance is there or gone, as far as the backend can tell.
  Whether an instance exists is only ever learned from `exist`.
-/

import MachineKeeper.Backend.Fault
import MachineKeeper.Backend.Request

namespace MachineKeeper

inductive BackendCall where
  /-- Opens a session, or goes on with the one there is. -/
  | connect
  | create (request : InstanceRequest)
  | delete (name : String)
  | exist (name : String)
  | close
  deriving DecidableEq

namespace BackendCall

@[reducible] def Answer : BackendCall → Type
  | .connect => Except BackendFault Unit
  | .create _ => Except BackendFault Unit
  | .delete _ => Except BackendFault Unit
  | .exist _ => Except BackendFault Bool
  | .close => Except BackendFault Unit

/-- Create and delete, the two calls that change what is there. -/
def mutates : BackendCall → Bool
  | .create _ | .delete _ => true
  | _ => false

end BackendCall

end MachineKeeper
