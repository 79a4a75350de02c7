/-
  MachineKeeper.Backend.Request — what a new instance is to be.

  A request is fully resolved: whatever the spec leaves open, or sets below its minimum, has been
  replaced by a default. The spec itself is never rewritten.
-/

import MachineKeeper.Object.Basic

namespace MachineKeeper

structure InstanceRequest where
  name : String
  image : String
  cpus : UInt32
  memoryMib : UInt64
  /-- Without one the size of the image stays. -/
  rootDiskGib : Option UInt32
  deriving DecidableEq

namespace InstanceRequest

def defaultImage : String := "images:ubuntu/24.04"

def defaultCpus : UInt32 := 2

def defaultMemoryMib : UInt64 := 2048

/-- The request for an instance of that name, as the spec would have it. -/
def ofSpec (name : String) (spec : MachineSpec) : InstanceRequest where
  name := name
  image := if spec.image = "" then defaultImage else spec.image
  cpus := if 1 ≤ spec.cpus.toInt then UInt32.ofNat spec.cpus.toInt.toNat else defaultCpus
  memoryMib :=
    if 1 ≤ spec.memoryMib.toInt then UInt64.ofNat spec.memoryMib.toInt.toNat
    else defaultMemoryMib
  rootDiskGib :=
    if 0 < spec.rootDiskGib.toInt then some (UInt32.ofNat spec.rootDiskGib.toInt.toNat)
    else none

end InstanceRequest

end MachineKeeper
