/-
  MachineKeeper.Daemon.Fault — why an exchange with the daemon came to nothing.
-/

import MachineKeeper.Json.Fault

namespace MachineKeeper.Daemon

inductive ApiFault where
  /-- The connection was closed before an answer had come. -/
  | closed
  | json (fault : Json.Fault)
  /-- The daemon refused, with a code of its own or that of the reply. -/
  | refused (status : UInt16) (message : String)
  | operation (url message : String)
  | unexpected (what : String)
  | socketMissing (path : String)
  | invalidName (name : String)
  deriving DecidableEq

namespace ApiFault

def message : ApiFault → String
  | .closed => "HTTP error: connection closed before message completed"
  | .json fault => "JSON error: " ++ fault.message
  | .refused status message =>
    "API error " ++ Text.decimal status.toNat ++ ": " ++ message
  | .operation url message => "operation " ++ url ++ " failed: " ++ message
  | .unexpected what => "unexpected response: " ++ what
  | .socketMissing path => "socket not found: " ++ path
  | .invalidName name => "invalid instance name " ++ Text.quoted name

def isNotFound : ApiFault → Bool
  | .refused status _ => status == 404
  | _ => false

end ApiFault

end MachineKeeper.Daemon
