/-
  MachineKeeper.Object.Marker — markers that hold an object in the store.

  A marker says that something outside the store has yet to be cleaned up; the store gives up a
  deleted object only when its last marker is gone. A marker is added once and removed in every
  place it stands.
-/

import MachineKeeper.Object.Basic

namespace MachineKeeper.Object

variable {k : Kind}

def hasMarker (o : Object k) (marker : String) : Bool := o.metadata.finalizers.contains marker

/-- The object with the marker, and whether it had to be added. -/
def addMarker (o : Object k) (marker : String) : Object k × Bool :=
  if o.hasMarker marker then (o, false)
  else ({ o with metadata.finalizers := o.metadata.finalizers ++ [marker] }, true)

/-- The object without the marker, and whether it had to be removed. -/
def removeMarker (o : Object k) (marker : String) : Object k × Bool :=
  let kept := o.metadata.finalizers.filter (· ≠ marker)
  ({ o with metadata.finalizers := kept }, kept.length ≠ o.metadata.finalizers.length)

end MachineKeeper.Object
