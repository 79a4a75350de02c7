/-
  MachineKeeper.Object.Basic — the objects that are kept.

  An object has metadata, a desired spec and an observed status. Its kind says what the last two
  hold: a machine stands for one virtual machine, a cluster for the network its machines attach
  to. The store owns uid, resource version, generation and both times; the user owns the spec,
  and the keeper the status.
-/

import MachineKeeper.Object.Condition
import MachineKeeper.Object.Key

namespace MachineKeeper

inductive Kind where
  | machine
  | cluster
  deriving DecidableEq

def Kind.name : Kind → String
  | .machine => "IncusMachine"
  | .cluster => "IncusCluster"

structure Metadata where
  name : String
  space : String
  uid : String
  /-- Grows with every write. -/
  resourceVersion : UInt64
  /-- Grows with every write that changes the spec. -/
  generation : Int64
  createdAt : Option Timestamp
  /-- When deletion was asked for. -/
  deletedAt : Option Timestamp
  /-- Markers that hold the object in the store. -/
  finalizers : List String
  deriving DecidableEq

namespace Metadata

def key (m : Metadata) : Key := ⟨m.space, m.name⟩

def deletionRequested (m : Metadata) : Bool := m.deletedAt.isSome

end Metadata

/-- What the user asks of a machine. Zero and less leave a number to the keeper. -/
structure MachineSpec where
  image : String
  cpus : Int32
  memoryMib : Int64
  rootDiskGib : Int32
  deriving DecidableEq

structure MachineStatus where
  conditions : List Condition
  /-- The instance that stands for the machine; empty before one does. -/
  instanceId : String
  deriving DecidableEq

structure ClusterSpec where
  network : String
  deriving DecidableEq

structure ClusterStatus where
  conditions : List Condition
  deriving DecidableEq

@[reducible] def Spec : Kind → Type
  | .machine => MachineSpec
  | .cluster => ClusterSpec

@[reducible] def Status : Kind → Type
  | .machine => MachineStatus
  | .cluster => ClusterStatus

instance : (k : Kind) → DecidableEq (Spec k)
  | .machine => inferInstanceAs (DecidableEq MachineSpec)
  | .cluster => inferInstanceAs (DecidableEq ClusterSpec)

instance : (k : Kind) → DecidableEq (Status k)
  | .machine => inferInstanceAs (DecidableEq MachineStatus)
  | .cluster => inferInstanceAs (DecidableEq ClusterStatus)

structure Object (k : Kind) where
  metadata : Metadata
  spec : Spec k
  status : Status k
  deriving DecidableEq

abbrev Machine := Object .machine

abbrev Cluster := Object .cluster

def Object.key {k : Kind} (o : Object k) : Key := o.metadata.key

/-- The recorded instance wins over the name of the object, so a rename orphans nothing. -/
def Object.instanceName (m : Machine) : String :=
  if m.status.instanceId = "" then m.metadata.name else m.status.instanceId

end MachineKeeper
