/-
  MachineKeeper.Reconcile.Call — the calls a reconcile makes.

  It reads and writes objects of its kind, talks to the backend, and looks at the clock for the
  time of a condition. The context is not its own concern: whoever answers the backend calls
  answers them under it.
-/

import MachineKeeper.Backend.Call
import MachineKeeper.Plan
import MachineKeeper.Reconcile.Fault
import MachineKeeper.Reconcile.Requeue
import MachineKeeper.Store.Call

namespace MachineKeeper

inductive ReconcileCall (k : Kind) where
  | store (c : StoreCall k)
  | backend (c : BackendCall)
  | wallClock

@[reducible] def ReconcileCall.Answer {k : Kind} : ReconcileCall k → Type
  | .store c => c.Answer
  | .backend c => c.Answer
  | .wallClock => Timestamp

abbrev ReconcilePlan (k : Kind) (α : Type) := Plan (ReconcileCall.Answer (k := k)) α

namespace ReconcilePlan

variable {k : Kind}

def store (c : StoreCall k) : ReconcilePlan k c.Answer := Plan.ask (ReconcileCall.store c)

def backend (c : BackendCall) : ReconcilePlan k c.Answer := Plan.ask (ReconcileCall.backend c)

def wallClock : ReconcilePlan k Timestamp := Plan.ask ReconcileCall.wallClock

end ReconcilePlan

end MachineKeeper
