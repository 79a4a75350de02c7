/-
  MachineKeeper.Worker.Summary — what a pass over all keys amounts to.

  Each key counts once: as failed if its last attempt failed or crashed, as reconciled if not,
  and then also as requeued if it asked for more. The order in which the keys end is of no
  account.
-/

import MachineKeeper.Worker.Sync

namespace MachineKeeper

structure Summary where
  reconciled : Nat
  failed : Nat
  requeued : Nat
  deriving DecidableEq

namespace Summary

def zero : Summary := ⟨0, 0, 0⟩

def count (s : Summary) : Attempt → Summary
  | .finished (.ok requeue) =>
    { s with
      reconciled := s.reconciled + 1
      requeued := if requeue.isDone then s.requeued else s.requeued + 1 }
  | .finished (.error _) | .crashed => { s with failed := s.failed + 1 }

def ofAttempts (as : List Attempt) : Summary := as.foldl count zero

end Summary

end MachineKeeper
