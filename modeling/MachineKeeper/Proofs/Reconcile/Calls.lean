/-
  MachineKeeper.Proofs.Reconcile.Calls — a reconcile of a machine as the tree of its calls.

  Each part of a reconcile is written as its next call and what follows each answer to it. Later
  proofs go through a reconcile by these equations and never open its parts themselves.
  Which way it goes after reading the machine is the metadata's decision alone.
-/

import MachineKeeper.Reconcile.Machine

namespace MachineKeeper

/-! ## What the metadata decides -/

namespace Decision

theorem of_eq_addMarker_iff {m : Machine} :
    Decision.of m = .addMarker ↔ ¬m.metadata.deletionRequested ∧ ¬m.hasMarker machineMarker := by
  unfold Decision.of
  cases m.metadata.deletionRequested <;> cases m.hasMarker machineMarker <;> simp

theorem of_eq_done_iff {m : Machine} :
    Decision.of m = .done ↔ m.metadata.deletionRequested ∧ ¬m.hasMarker machineMarker := by
  unfold Decision.of
  cases m.metadata.deletionRequested <;> cases m.hasMarker machineMarker <;> simp

theorem of_eq_observe_iff {m : Machine} {pending : Pending} :
    Decision.of m = .observe pending ↔ m.hasMarker machineMarker ∧
      pending = if m.metadata.deletionRequested then .deleting m.instanceName else .live m.instanceName := by
  unfold Decision.of
  cases m.metadata.deletionRequested <;> cases m.hasMarker machineMarker <;> simp [eq_comm]

theorem instanceName_of_observe {m : Machine} {pending : Pending} (h : Decision.of m = .observe pending) :
    pending.instanceName = m.instanceName := by
  rw [(of_eq_observe_iff.mp h).2]
  split <;> rfl

end Decision

/-! ## Calls and what follows them -/

namespace Reconcile

theorem fail_eq (m : Machine) (fault : ReconcileFault) :
    fail m fault = .call .wallClock fun now =>
      if (Condition.set (failedCondition m fault now) m.status.conditions).2 then
        .call (.store (.updateStatus
          { m with status.conditions := (Condition.set (failedCondition m fault now) m.status.conditions).1 }))
          fun _ => .done (.error fault)
      else .done (.error fault) := rfl

theorem addMarker_eq (m : Machine) :
    addMarker m = .call (.store (.update (m.addMarker machineMarker).1)) fun
      | .error fault => .done (.error (.store fault))
      | .ok _ => .done (.ok .immediate) := rfl

theorem removeMarker_eq (m : Machine) :
    removeMarker m =
      if (m.removeMarker machineMarker).2 then
        .call (.store (.update (m.removeMarker machineMarker).1)) fun
          | .error fault => .done (.error (.store fault))
          | .ok _ => .done (.ok .never)
      else .done (.ok .never) := by
  unfold removeMarker
  by_cases h : (m.removeMarker machineMarker).2 = true
  · simp only [h, if_true]
    refine congrArg (Plan.call _) (funext fun answer => ?_)
    cases answer <;> rfl
  · simp only [h]
    rfl

theorem adopt_eq (m : Machine) (name : String) :
    adopt m name = .call .wallClock fun now =>
      if adoptedStatus m name now = m.status then .done (.ok .never)
      else .call (.store (.updateStatus { m with status := adoptedStatus m name now })) fun
        | .error fault => .done (.error (.store fault))
        | .ok _ => .done (.ok .never) := by
  refine congrArg (Plan.call ReconcileCall.wallClock) (funext fun now => ?_)
  by_cases h : adoptedStatus m name now = m.status
  · simp only [Plan.done_bind, h, if_true]
    rfl
  · simp only [Plan.done_bind, h, if_false]
    refine congrArg (Plan.call _) (funext fun answer => ?_)
    cases answer <;> rfl

theorem create_eq (m : Machine) (r : InstanceRequest) :
    create m r = .call (.backend (.create r)) fun
      | .error fault => fail m (.backend fault)
      | .ok () => .call (.backend (.exist r.name)) fun
        | .error fault => fail m (.backend fault)
        | .ok false => fail m (.createUnconfirmed r.name)
        | .ok true => adopt m r.name := rfl

theorem delete_eq (m : Machine) (name : String) :
    delete m name = .call (.backend (.delete name)) fun
      | .error fault => fail m (.backend fault)
      | .ok () => .call (.backend (.exist name)) fun
        | .error fault => fail m (.backend fault)
        | .ok true => fail m (.deleteUnconfirmed name)
        | .ok false => removeMarker m := rfl

theorem observe_eq (m : Machine) (pending : Pending) :
    observe m pending = .call (.backend .connect) fun
      | .error fault => fail m (.backend fault)
      | .ok () => .call (.backend (.exist pending.instanceName)) fun
        | .error fault => fail m (.backend fault)
        | .ok exist => takeStep m (Step.of m pending exist) := rfl

theorem machine_eq (key : Key) :
    machine key = .call (.store (.get key)) fun
      | .error fault => .done (.error (.store fault))
      | .ok none => .done (.ok .never)
      | .ok (some m) => match Decision.of m with
        | .done => .done (.ok .never)
        | .addMarker => addMarker m
        | .observe pending => observe m pending := rfl

end Reconcile

end MachineKeeper
