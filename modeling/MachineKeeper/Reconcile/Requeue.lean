/-
  MachineKeeper.Reconcile.Requeue — when a key is to be reconciled again.
-/

namespace MachineKeeper

inductive Requeue where
  /-- Not before the next change or resync. -/
  | never
  | immediate
  /-- After so many milliseconds. -/
  | after (delay : Nat)
  deriving DecidableEq

namespace Requeue

def isImmediate (r : Requeue) : Bool := r == .immediate

def isDone (r : Requeue) : Bool := r == .never

end Requeue

end MachineKeeper
