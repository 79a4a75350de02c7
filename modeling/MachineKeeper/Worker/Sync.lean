/-
  MachineKeeper.Worker.Sync — one key, followed through its immediate requeues.

  Each attempt gets a deadline of its own, no later than that of the whole. A key that asks to
  be run again at once is, until the bound is reached or the context is done; anything else it
  asks for is left to the next pass.

  An attempt crashes if it cannot even be given its deadline, or if the reconciler itself does.
-/

import MachineKeeper.Clock.Context
import MachineKeeper.Object.Key
import MachineKeeper.Plan
import MachineKeeper.Reconcile.Fault
import MachineKeeper.Reconcile.Requeue

namespace MachineKeeper

structure WorkerConfig where
  /-- Milliseconds between two passes. -/
  interval : Nat
  /-- Milliseconds an attempt may take. -/
  timeout : Nat
  /-- Immediate requeues of a key within one pass. -/
  maxRequeues : Nat
  deriving DecidableEq

def WorkerConfig.standard : WorkerConfig := ⟨30000, 600000, 5⟩

/-- How an attempt ends. -/
inductive Attempt where
  | finished (result : Except ReconcileFault Requeue)
  | crashed

inductive SyncCall where
  | clock
  | interruption (ctx : Context)
  | reconcile (ctx : Context) (key : Key)

@[reducible] def SyncCall.Answer : SyncCall → Type
  | .clock => Instant
  | .interruption _ => Option Interruption
  | .reconcile .. => Attempt

abbrev SyncPlan (α : Type) := Plan SyncCall.Answer α

namespace Sync

def ask (c : SyncCall) : SyncPlan c.Answer := Plan.ask c

/-- One attempt; `again` is what follows where it asks to be run again at once. -/
def attempt (ctx : Context) (timeout : Nat) (key : Key) (again : SyncPlan Attempt) :
    SyncPlan Attempt := do
  let now ← ask .clock
  match ctx.withTimeout? now timeout with
  | none => return .crashed
  | some child =>
    match ← ask (.reconcile child key) with
    | .finished (.ok .immediate) => again
    | ended => return ended

/-- An attempt, and so many requeues after it at most. -/
def attempts (ctx : Context) (timeout : Nat) (key : Key) : Nat → SyncPlan Attempt
  | 0 => attempt ctx timeout key (return .finished (.ok .immediate))
  | left + 1 => attempt ctx timeout key do
    match ← ask (.interruption ctx) with
    | some _ => return .finished (.ok .immediate)
    | none => attempts ctx timeout key left

def plan (config : WorkerConfig) (ctx : Context) (key : Key) : SyncPlan Attempt :=
  attempts ctx config.timeout key config.maxRequeues

/-- However many may follow, it begins with an attempt. -/
theorem exists_attempt (ctx : Context) (timeout : Nat) (key : Key) (left : Nat) :
    ∃ again, attempts ctx timeout key left = attempt ctx timeout key again := by
  cases left with
  | zero => exact ⟨_, rfl⟩
  | succ left => exact ⟨_, rfl⟩

end Sync

end MachineKeeper
