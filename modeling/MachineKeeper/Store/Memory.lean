/-
  MachineKeeper.Store.Memory — objects of one kind, kept in memory.
-/

import MachineKeeper.Store.Call
import MachineKeeper.Store.Catalog
import MachineKeeper.Store.Rules

namespace MachineKeeper

abbrev Memory (k : Kind) := Catalog Key (Object k)

namespace Memory

variable {k : Kind}

def existing (s : Memory k) (key : Key) : Except StoreFault (Object k) :=
  match s.get? key with
  | some o => .ok o
  | none => .error (.notFound k key)

def apply (s : Memory k) : Outcome k → Memory k
  | .stored next => s.insert next.key next
  | .purged last => s.erase last.key
  | .unchanged _ => s

def create (fresh : Fresh) (o : Object k) (s : Memory k) :
    Except StoreFault (Object k) × Memory k :=
  match o.create fresh (s.get? o.key) with
  | .ok next => (.ok next, s.insert next.key next)
  | .error fault => (.error fault, s)

def update (o : Object k) (s : Memory k) : Except StoreFault (Object k) × Memory k :=
  match (do (← s.existing o.key).update o) with
  | .ok outcome => (.ok outcome.object, s.apply outcome)
  | .error fault => (.error fault, s)

def updateStatus (o : Object k) (s : Memory k) : Except StoreFault (Object k) × Memory k :=
  match (do (← s.existing o.key).updateStatus o) with
  | .ok next => (.ok next, s.insert o.key next)
  | .error fault => (.error fault, s)

def delete (now : Timestamp) (key : Key) (s : Memory k) :
    Except StoreFault (Option (Object k)) × Memory k :=
  match s.existing key with
  | .error fault => (.error fault, s)
  | .ok current =>
    match current.delete now with
    | .purged last => (.ok none, s.apply (.purged last))
    | outcome => (.ok (some outcome.object), s.apply outcome)

def perform (fresh : Fresh) (s : Memory k) : (c : StoreCall k) → c.Answer × Memory k
  | .get key => (.ok (s.get? key), s)
  | .list => (.ok s.keys, s)
  | .create o => s.create fresh o
  | .update o => s.update o
  | .updateStatus o => s.updateStatus o
  | .delete key => s.delete fresh.now key

end Memory

end MachineKeeper
