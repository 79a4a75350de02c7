/-
  MachineKeeper.Store.Table — objects of every kind in one table of texts.

  A row is found by kind, namespace and name; it holds the object as JSON, and its version once
  more beside it. The text is read anew on every access, so whoever writes the row behind the
  store's back is heard: a text that is no object of its kind is a fault of every call that has
  to read it. A table may also be gone, until it is opened anew.
-/

import MachineKeeper.Object.Format
import MachineKeeper.Store.Call
import MachineKeeper.Store.Catalog
import MachineKeeper.Store.Rules

namespace MachineKeeper

structure Row.Place where
  kind : String
  key : Key
  deriving DecidableEq

instance : LT Row.Place :=
  ⟨fun a b => a.kind < b.kind ∨ (a.kind = b.kind ∧ a.key < b.key)⟩

instance (a b : Row.Place) : Decidable (a < b) :=
  inferInstanceAs (Decidable (a.kind < b.kind ∨ (a.kind = b.kind ∧ a.key < b.key)))

structure Row where
  /-- A signed column: versions from 2^63 on come out negative. -/
  version : Int64
  body : String

structure Table where
  rows : Catalog Row.Place Row
  /-- Whether the table is there. -/
  present : Bool

namespace Table

variable {k : Kind}

def empty : Table := ⟨Catalog.empty, true⟩

/-- Opening creates the table if it is gone. -/
def reopen (t : Table) : Table := if t.present then t else empty

def drop (t : Table) : Table := { t with present := false }

def place (k : Kind) (key : Key) : Row.Place := ⟨k.name, key⟩

def row? (t : Table) (p : Row.Place) : Except StoreFault (Option Row) :=
  if t.present then .ok (t.rows.get? p) else .error .unavailable

def putRow (t : Table) (p : Row.Place) (r : Row) : Table :=
  { t with rows := t.rows.insert p r }

def read (k : Kind) (t : Table) (key : Key) : Except StoreFault (Option (Object k)) := do
  match ← t.row? (place k key) with
  | none => .ok none
  | some row =>
    match (Object.codec k).ofText row.body with
    | .ok o => .ok (some o)
    | .error fault => .error (.unreadable fault)

def existing (k : Kind) (t : Table) (key : Key) : Except StoreFault (Object k) := do
  match ← read k t key with
  | some o => .ok o
  | none => .error (.notFound k key)

/-- Writes the object into the row of its own key. -/
def write (t : Table) (o : Object k) : Table :=
  t.putRow (place k o.key)
    ⟨Int64.ofInt o.metadata.resourceVersion.toNat, (Object.codec k).text o⟩

def remove (k : Kind) (t : Table) (key : Key) : Table :=
  { t with rows := t.rows.erase (place k key) }

def apply (t : Table) : Outcome k → Table
  | .stored next => t.write next
  | .purged last => t.remove k last.key
  | .unchanged _ => t

def list (k : Kind) (t : Table) : Except StoreFault (List Key) :=
  if t.present then .ok ((t.rows.keys.filter (·.kind = k.name)).map (·.key))
  else .error .unavailable

def create (fresh : Fresh) (o : Object k) (t : Table) : Except StoreFault (Object k) × Table :=
  match (do o.create fresh (← read k t o.key)) with
  | .ok next => (.ok next, t.write next)
  | .error fault => (.error fault, t)

def update (o : Object k) (t : Table) : Except StoreFault (Object k) × Table :=
  match (do (← existing k t o.key).update o) with
  | .ok outcome => (.ok outcome.object, t.apply outcome)
  | .error fault => (.error fault, t)

def updateStatus (o : Object k) (t : Table) : Except StoreFault (Object k) × Table :=
  match (do (← existing k t o.key).updateStatus o) with
  | .ok next => (.ok next, t.write next)
  | .error fault => (.error fault, t)

def delete (k : Kind) (now : Timestamp) (key : Key) (t : Table) :
    Except StoreFault (Option (Object k)) × Table :=
  match existing k t key with
  | .error fault => (.error fault, t)
  | .ok current =>
    match current.delete now with
    | .purged last => (.ok none, t.apply (.purged last))
    | outcome => (.ok (some outcome.object), t.apply outcome)

def perform (fresh : Fresh) (t : Table) : (c : StoreCall k) → c.Answer × Table
  | .get key => (read k t key, t)
  | .list => (list k t, t)
  | .create o => t.create fresh o
  | .update o => t.update o
  | .updateStatus o => t.updateStatus o
  | .delete key => t.delete k fresh.now key

end Table

end MachineKeeper
