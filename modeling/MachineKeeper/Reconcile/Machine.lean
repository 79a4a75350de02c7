/-
  MachineKeeper.Reconcile.Machine — one reconcile of a machine.

  Read, decide, look the instance up, take one step. The backend is changed only right after a
  look at it, and what a create or delete achieved is looked at before it is recorded, so the
  sequence can be broken off and started again at any point. A failure writes the condition and
  nothing else; recorded instance and markers stay as they are.
-/

import MachineKeeper.Reconcile.Call
import MachineKeeper.Reconcile.Decision

namespace MachineKeeper.Reconcile

open ReconcilePlan (store backend wallClock)

abbrev MachinePlan := ReconcilePlan .machine (Except ReconcileFault Requeue)

/-- The condition that sums up the instance of a machine. -/
def readyType : String := "Ready"

def readyReason : String := "InstanceReady"

/-- The observation that the instance exists. -/
def readyCondition (m : Machine) (name : String) (now : Timestamp) : Condition :=
  ⟨readyType, .yes, m.metadata.generation, now, readyReason, "instance " ++ name ++ " exists"⟩

/-- The observation that a reconcile failed. -/
def failedCondition (m : Machine) (fault : ReconcileFault) (now : Timestamp) : Condition :=
  ⟨readyType, .no, m.metadata.generation, now, fault.reason, fault.message⟩

/-- The status of a machine whose instance has been seen. -/
def adoptedStatus (m : Machine) (name : String) (now : Timestamp) : MachineStatus where
  conditions := (Condition.set (readyCondition m name now) m.status.conditions).1
  instanceId := name

/-- Records the fault, if it is news, and gives it back; a failed write changes nothing. -/
def fail (m : Machine) (fault : ReconcileFault) : MachinePlan := do
  let now ← wallClock
  let (conditions, changed) := Condition.set (failedCondition m fault now) m.status.conditions
  if changed then
    let _ ← store (.updateStatus { m with status.conditions := conditions })
  return .error fault

def addMarker (m : Machine) : MachinePlan := do
  match ← store (.update (m.addMarker machineMarker).1) with
  | .error fault => return .error (.store fault)
  | .ok _ => return .ok .immediate

def removeMarker (m : Machine) : MachinePlan := do
  let (freed, removed) := m.removeMarker machineMarker
  if removed then
    match ← store (.update freed) with
    | .error fault => return .error (.store fault)
    | .ok _ => return .ok .never
  else
    return .ok .never

/-- Records the instance in the status, if that is news. -/
def adopt (m : Machine) (name : String) : MachinePlan := do
  let now ← wallClock
  let status := adoptedStatus m name now
  if status = m.status then
    return .ok .never
  else
    match ← store (.updateStatus { m with status := status }) with
    | .error fault => return .error (.store fault)
    | .ok _ => return .ok .never

/-- The instance is recorded only once it has been seen. -/
def create (m : Machine) (r : InstanceRequest) : MachinePlan := do
  match ← backend (.create r) with
  | .error fault => fail m (.backend fault)
  | .ok () =>
    match ← backend (.exist r.name) with
    | .error fault => fail m (.backend fault)
    | .ok false => fail m (.createUnconfirmed r.name)
    | .ok true => adopt m r.name

/-- The marker goes only once the instance has been seen to be gone. -/
def delete (m : Machine) (name : String) : MachinePlan := do
  match ← backend (.delete name) with
  | .error fault => fail m (.backend fault)
  | .ok () =>
    match ← backend (.exist name) with
    | .error fault => fail m (.backend fault)
    | .ok true => fail m (.deleteUnconfirmed name)
    | .ok false => removeMarker m

def takeStep (m : Machine) : Step → MachinePlan
  | .create r => create m r
  | .adopt name => adopt m name
  | .delete name => delete m name
  | .removeMarker => removeMarker m

def observe (m : Machine) (pending : Pending) : MachinePlan := do
  match ← backend .connect with
  | .error fault => fail m (.backend fault)
  | .ok () =>
    match ← backend (.exist pending.instanceName) with
    | .error fault => fail m (.backend fault)
    | .ok exist => takeStep m (Step.of m pending exist)

def machine (key : Key) : MachinePlan := do
  match ← store (.get key) with
  | .error fault => return .error (.store fault)
  | .ok none => return .ok .never
  | .ok (some m) =>
    match Decision.of m with
    | .done => return .ok .never
    | .addMarker => addMarker m
    | .observe pending => observe m pending

end MachineKeeper.Reconcile
