/-
  MachineKeeper.Reconcile.Decision — what is to be done about a machine.

  The state of a machine is derived anew each time, from its metadata and from whether its
  instance exists:

    deletion  marker   instance  step
    no        absent   -         add the marker, no backend call
    no        present  absent    create, confirm, record
    no        present  present   adopt: bring the status up to date
    yes       present  present   delete, confirm absence, remove the marker
    yes       present  absent    remove the marker
    yes       absent   -         nothing
-/

import MachineKeeper.Backend.Request
import MachineKeeper.Object.Marker

namespace MachineKeeper

/-- Held by every machine until its instance is confirmed gone. -/
def machineMarker : String := "infrastructure.cluster.x-k8s.io/incusmachine"

/-- A machine whose instance has to be looked up. -/
inductive Pending where
  | live (instanceName : String)
  | deleting (instanceName : String)
  deriving DecidableEq

def Pending.instanceName : Pending → String
  | .live name | .deleting name => name

/-- What the metadata alone decides. -/
inductive Decision where
  | addMarker
  | done
  | observe (pending : Pending)
  deriving DecidableEq

/-- What to do once it is known whether the instance exists. -/
inductive Step where
  | create (request : InstanceRequest)
  | adopt (instanceName : String)
  | delete (instanceName : String)
  | removeMarker
  deriving DecidableEq

def Decision.of (m : Machine) : Decision :=
  match m.metadata.deletionRequested, m.hasMarker machineMarker with
  | false, false => .addMarker
  | false, true => .observe (.live m.instanceName)
  | true, true => .observe (.deleting m.instanceName)
  | true, false => .done

def Step.of (m : Machine) (pending : Pending) (exist : Bool) : Step :=
  match pending, exist with
  | .live name, false => .create (.ofSpec name m.spec)
  | .live name, true => .adopt name
  | .deleting name, true => .delete name
  | .deleting _, false => .removeMarker

end MachineKeeper
