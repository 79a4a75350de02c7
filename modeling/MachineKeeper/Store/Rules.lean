/-
  MachineKeeper.Store.Rules — what a store makes of a write.

  Every store applies these rules to the object it holds under the key of the write:

  - a new object gets a uid, version 1, generation 1 and the time; a deletion is never taken
    over from the caller;
  - a later write has to carry the current version, and raises it by one;
  - `update` writes metadata and spec, and leaves the status; the generation grows if the spec
    differs; `updateStatus` writes the status and leaves the rest;
  - deletion only marks an object that markers still hold; it is purged once the last marker
    is gone.
-/

import MachineKeeper.Object.Marker
import MachineKeeper.Store.Fault

namespace MachineKeeper

/-- What the store hands out with a write: an id not used before, and the time. -/
structure Fresh where
  uid : String
  now : Timestamp

/-- What becomes of the object that was written. -/
inductive Outcome (k : Kind) where
  | stored (next : Object k)
  | purged (last : Object k)
  | unchanged (current : Object k)

def Outcome.object {k : Kind} : Outcome k → Object k
  | .stored o | .purged o | .unchanged o => o

/-- Of equal neighbours only the first stays. -/
def collapse : List String → List String
  | [] => []
  | [x] => [x]
  | x :: y :: rest => if x = y then collapse (y :: rest) else x :: collapse (y :: rest)

namespace Object

variable {k : Kind}

def checkVersion (current incoming : Object k) : Except StoreFault Unit :=
  let expected := incoming.metadata.resourceVersion
  let actual := current.metadata.resourceVersion
  if expected = actual then .ok () else .error (.conflict k current.key expected actual)

def purgeable (o : Object k) : Bool :=
  o.metadata.deletionRequested && o.metadata.finalizers.isEmpty

def created (fresh : Fresh) (o : Object k) : Object k :=
  { o with
    metadata.uid := fresh.uid
    metadata.resourceVersion := 1
    metadata.generation := 1
    metadata.createdAt := some fresh.now
    metadata.deletedAt := none }

def create (fresh : Fresh) (existing : Option (Object k)) (o : Object k) :
    Except StoreFault (Object k) :=
  match existing with
  | some _ => .error (.alreadyExists k o.key)
  | none => .ok (o.created fresh)

def updated (current incoming : Object k) : Object k :=
  { metadata :=
      { incoming.metadata with
        uid := current.metadata.uid
        resourceVersion := current.metadata.resourceVersion + 1
        generation :=
          if incoming.spec = current.spec then current.metadata.generation
          else current.metadata.generation + 1
        createdAt := current.metadata.createdAt
        deletedAt := current.metadata.deletedAt
        finalizers := collapse incoming.metadata.finalizers }
    spec := incoming.spec
    status := current.status }

def update (current incoming : Object k) : Except StoreFault (Outcome k) := do
  current.checkVersion incoming
  let next := current.updated incoming
  .ok (if next.purgeable then .purged next else .stored next)

def statusUpdated (current incoming : Object k) : Object k :=
  { current with
    metadata.resourceVersion := current.metadata.resourceVersion + 1
    status := incoming.status }

def updateStatus (current incoming : Object k) : Except StoreFault (Object k) := do
  current.checkVersion incoming
  .ok (current.statusUpdated incoming)

def deleted (now : Timestamp) (current : Object k) : Object k :=
  { current with
    metadata.deletedAt := some now
    metadata.resourceVersion := current.metadata.resourceVersion + 1 }

def delete (now : Timestamp) (current : Object k) : Outcome k :=
  if current.metadata.finalizers.isEmpty then .purged current
  else if current.metadata.deletionRequested then .unchanged current
  else .stored (current.deleted now)

end Object

end MachineKeeper
