/-
  MachineKeeper.Rehearsal.Keeper — the keeper at work in a world.

  The plans of the keeper become acts here: its backend calls go to the simulated backend, or
  through a session to the scripted daemon, each under the context of its reconcile.

  A pass carries out the plans of all stored keys together; a run makes passes until it is shut
  down.
-/

import MachineKeeper.Reconcile.Cluster
import MachineKeeper.Reconcile.Machine
import MachineKeeper.Rehearsal.Together
import MachineKeeper.Worker.Resync
import MachineKeeper.Worker.Summary

namespace MachineKeeper.Rehearsal

open World (Call)

/-- Who answers the backend calls. -/
inductive BackendChoice where
  | simulated
  | daemon (socketPath : String)
  deriving DecidableEq

def ask (c : Call) : Act c.Answer := Plan.ask c

/-! ## Acts -/

/-- A session plan, with its exchanges under the context. -/
def sessionAct {α : Type} (ctx : Context) (p : Daemon.SessionPlan α) : Act α :=
  p.via fun c => ask (.session ctx c)

def backendAct (choice : BackendChoice) (ctx : Context) (c : BackendCall) : Act c.Answer :=
  match choice with
  | .simulated => ask (.simulated ctx c)
  | .daemon socketPath => sessionAct ctx (Daemon.Session.plan socketPath c)

def answerAct {k : Kind} (choice : BackendChoice) (ctx : Context) :
    (c : ReconcileCall k) → Act c.Answer
  | .store c => ask (.store k c)
  | .backend c => backendAct choice ctx c
  | .wallClock => ask .wallClock

def reconcileAct (choice : BackendChoice) (ctx : Context) :
    (k : Kind) → Key → Act (Except ReconcileFault Requeue)
  | .machine, key => (Reconcile.machine key).via (answerAct choice ctx)
  | .cluster, key => (Reconcile.cluster key).via (answerAct choice ctx)

/-- How the keys of a kind are reconciled. -/
abbrev Reconciler := Context → Key → Act Attempt

def keeper (choice : BackendChoice) (k : Kind) : Reconciler := fun ctx key => do
  return .finished (← reconcileAct choice ctx k key)

/-- Reconciles by the script of the world. -/
def scripted : Reconciler := fun ctx key => do
  let entry ← ask (.visit ctx key)
  let go : Act Attempt := do
    if entry.cancels then ask (.cancel ctx)
    return entry.ending
  match entry.pause with
  | none => go
  | some duration =>
    match ← ask (.pause ctx duration) with
    | .error why => return .finished (.error (.backend (.interrupted why)))
    | .ok () => go

def syncAct (reconciler : Reconciler) (config : WorkerConfig) (ctx : Context) (key : Key) :
    Act Attempt :=
  (Sync.plan config ctx key).via fun
    | .clock => ask .clock
    | .interruption ctx => ask (.interruption ctx)
    | .reconcile ctx key => reconciler ctx key

/-! ## Passes -/

/-- More turns than all attempts of a pass can take. -/
def turns (keys : List Key) (config : WorkerConfig) : Nat :=
  64 * (keys.length + 1) * (config.maxRequeues + 1)

/-- How a pass ends. -/
inductive PassEnd where
  | done (summary : Summary)
  | unlisted (fault : StoreFault)
  /-- Not by the limit. -/
  | stuck

def pass (k : Kind) (reconciler : Reconciler) (config : WorkerConfig) (ctx : Context)
    (limit : Instant) (w : World) : PassEnd × World :=
  match w.storeQuietly (.list (k := k)) with
  | (.error fault, w) => (.unlisted fault, w)
  | (.ok keys, w) =>
    let stage := Stage.of (keys.map (syncAct reconciler config ctx))
    match stage.run limit (turns keys config) w.catchUp with
    | (some attempts, w) => (.done (Summary.ofAttempts attempts), w)
    | (none, w) => (.stuck, w)

/--
Makes passes, the first one now, until a value sent to the shutdown signal is seen: by the
passes themselves, or after `duration`, when it is set at the latest. `cancelled` is what it
holds at first. Answers with the instant when both the passes and the duration are over, if
that is by the limit.
-/
def run (k : Kind) (reconciler : Reconciler) (config : WorkerConfig) (cancelled : Bool)
    (duration : Nat) (limit : Instant) (w : World) : Option Instant × World :=
  let start := w.now
  let (signal, w) := w.openSignal cancelled
  let w := w.change signal (start + duration) (.send true)
  let onePass (t : Instant) (w : World) : Option Instant × World :=
    match pass k reconciler config (.withCancel signal) limit { w with now := t } with
    | (.stuck, w) => (none, w)
    | (_, w) => (some w.now, w)
  let shutdown (w : World) : Signal := w.signals[signal]?.getD (.constant true)
  match Resync.run config.interval limit shutdown onePass (fun _ => true) (2 * duration + 8)
    0 start start w with
  | .stopped w t =>
    let ended := max t (start + duration)
    if ended ≤ limit then (some ended, { w with now := ended }) else (none, w.abandon limit)
  | .stuck w => (none, w.abandon limit)
  | .unfinished w => (none, w.abandon limit)

end MachineKeeper.Rehearsal
