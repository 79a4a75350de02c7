/-
  MachineKeeper.Proofs.Reconcile.Course — where a reconcile can stand, and what it does there.

  A reconcile of a marked machine asks the backend one thing after another, and what it does next
  depends on what it has heard last (`Heard`): it connects, looks, changes the instance if that is
  due, looks once more, and ends with one write at most. `Course` lists these steps, each with
  what must have been heard before it; so it says once, for every proof, what a reconcile may do
  next wherever it stands.

  A write is always news. A fault is told where the condition does not say it yet (`Tells`), an
  instance is recorded where the status is not up to date (`UpToDate`), and neither depends on the
  clock; a marker comes off where it is.

  Proved:
  - `adoptedStatus_eq_iff`, `failed_unchanged_iff`: when there is nothing to write, at any time.
  - `afterRead_cases`: a reconcile that has read its machine has nothing to do, or puts the marker
    on, or follows its course.
-/

import MachineKeeper.Proofs.Reconcile.Alone
import MachineKeeper.Proofs.Reconcile.Gate

namespace MachineKeeper

namespace Reconcile

variable {m : Machine}

/-! ## What is no news -/

/-- The status says which instance there is, and that it is there. -/
def UpToDate (m : Machine) : Prop :=
  m.status.instanceId = m.instanceName ∧
    ∀ now, (Condition.set (readyCondition m m.instanceName now) m.status.conditions).2 = false

/-- When a condition was set does not matter for whether the same observation changes it. -/
theorem ready_unchanged_iff {now now' : Timestamp} :
    (Condition.set (readyCondition m m.instanceName now) m.status.conditions).2 = false ↔
      (Condition.set (readyCondition m m.instanceName now') m.status.conditions).2 = false := by
  rw [Condition.set_unchanged_iff, Condition.set_unchanged_iff]
  rfl

theorem adoptedStatus_eq_iff {now : Timestamp} : adoptedStatus m m.instanceName now = m.status ↔ UpToDate m := by
  constructor
  · intro h
    have hid : m.instanceName = m.status.instanceId := congrArg MachineStatus.instanceId h
    have hset := Condition.set_eq_iff.mp (congrArg MachineStatus.conditions h)
    exact ⟨hid.symm, fun now' => ready_unchanged_iff.mp hset⟩
  · intro h
    obtain ⟨hid, hset⟩ := h
    have hconditions := Condition.set_of_unchanged (hset now)
    rw [adoptedStatus, hconditions, ← hid]

theorem failed_unchanged_iff {fault : ReconcileFault} {now : Timestamp} {cs : List Condition} :
    (Condition.set (failedCondition m fault now) cs).2 = false ↔ Tells m fault cs := by
  rw [Condition.set_unchanged_iff]
  constructor
  · intro h
    obtain ⟨c, hc, hstatus, hgeneration, hreason, hmessage⟩ := h
    exact ⟨c, hc, hstatus, hreason, hmessage, hgeneration⟩
  · intro h
    obtain ⟨c, hc, hstatus, hreason, hmessage, hgeneration⟩ := h
    exact ⟨c, hc, hstatus, hgeneration, hreason, hmessage⟩

/-! ## What is written -/

/-- The machine with the marker behind the others. -/
def marked (m : Machine) : Machine := { m with metadata.finalizers := m.metadata.finalizers ++ [machineMarker] }

/-- The machine without the marker. -/
def released (m : Machine) : Machine := { m with metadata.finalizers := foreignMarkers m }

/-- The machine with the fault in its condition. -/
def failed (m : Machine) (fault : ReconcileFault) (now : Timestamp) : Machine :=
  { m with status := failedStatus m fault now }

/-- The machine with its instance recorded. -/
def adopted (m : Machine) (now : Timestamp) : Machine := { m with status := adoptedStatus m m.instanceName now }

/-- What is answered to a write ends the reconcile. -/
def concluded (requeue : Requeue) : Except StoreFault Machine → MachinePlan
  | .error fault => .done (.error (.store fault))
  | .ok _ => .done (.ok requeue)

theorem addMarker_of_not_hasMarker (h : ¬m.hasMarker machineMarker) : (m.addMarker machineMarker).1 = marked m := by
  rw [Object.addMarker, if_neg h]
  rfl

theorem removeMarker_of_hasMarker (h : m.hasMarker machineMarker) : m.removeMarker machineMarker = (released m, true) := by
  simp [Object.removeMarker, released, foreignMarkers, Object.hasMarker_iff.mp h]

theorem addMarker_concluded (h : ¬m.hasMarker machineMarker) :
    addMarker m = .call (.store (.update (marked m))) (concluded .immediate) := by
  rw [addMarker_eq, addMarker_of_not_hasMarker h]
  refine congrArg (Plan.call _) (funext fun x => ?_)
  cases x <;> rfl

theorem adopt_concluded (m : Machine) :
    adopt m m.instanceName = .call .wallClock fun now =>
      if adoptedStatus m m.instanceName now = m.status then .done (.ok .never)
      else .call (.store (.updateStatus (adopted m now))) (concluded .never) := by
  rw [adopt_eq]
  refine congrArg (Plan.call _) (funext fun now => ?_)
  split
  · rfl
  · refine congrArg (Plan.call _) (funext fun x => ?_)
    cases x <;> rfl

theorem removeMarker_concluded (h : m.hasMarker machineMarker) :
    removeMarker m = .call (.store (.update (released m))) (concluded .never) := by
  rw [removeMarker_eq, removeMarker_of_hasMarker h, if_pos rfl]
  refine congrArg (Plan.call _) (funext fun x => ?_)
  cases x <;> rfl

/-! ## The course of a reconcile -/

/-- What the backend has said so far. -/
inductive Heard where
  | nothing
  | connected
  | looked (there : Bool)
  /-- A create or delete was reported to be done. -/
  | changed
  | confirmed (there : Bool)
  | failed

namespace Heard

/-- What was heard last is whether the instance is there. -/
def Shows (there : Bool) : Heard → Prop
  | .looked b | .confirmed b => b = there
  | .nothing | .connected | .changed | .failed => False

/-- A call has failed, or the instance is not as the change should have left it. -/
def Amiss (m : Machine) : Heard → Prop
  | .failed => True
  | .confirmed there => there = m.metadata.deletionRequested
  | .nothing | .connected | .looked _ | .changed => False

end Heard

/-- What a reconcile of a marked machine has heard, and what is left of its plan then. -/
inductive Course (m : Machine) : Heard → MachinePlan → Prop
  | connect {next : Except BackendFault Unit → MachinePlan} : (∀ fault, Course m .failed (next (.error fault))) →
      Course m .connected (next (.ok ())) → Course m .nothing (.call (.backend .connect) next)
  | look {next : Except BackendFault Bool → MachinePlan} : (∀ fault, Course m .failed (next (.error fault))) →
      (∀ there, Course m (.looked there) (next (.ok there))) →
      Course m .connected (.call (.backend (.exist m.instanceName)) next)
  | create {next : Except BackendFault Unit → MachinePlan} : ¬m.metadata.deletionRequested →
      (∀ fault, Course m .failed (next (.error fault))) → Course m .changed (next (.ok ())) →
      Course m (.looked false) (.call (.backend (.create (.ofSpec m.instanceName m.spec))) next)
  | delete {next : Except BackendFault Unit → MachinePlan} : m.metadata.deletionRequested →
      (∀ fault, Course m .failed (next (.error fault))) → Course m .changed (next (.ok ())) →
      Course m (.looked true) (.call (.backend (.delete m.instanceName)) next)
  | confirm {next : Except BackendFault Bool → MachinePlan} : (∀ fault, Course m .failed (next (.error fault))) →
      (∀ there, Course m (.confirmed there) (next (.ok there))) →
      Course m .changed (.call (.backend (.exist m.instanceName)) next)
  | clock {h : Heard} {next : Timestamp → MachinePlan} : (∀ now, Course m h (next now)) →
      Course m h (.call .wallClock next)
  | told {h : Heard} (fault : ReconcileFault) : h.Amiss m → Tells m fault m.status.conditions →
      Course m h (.done (.error fault))
  | tell {h : Heard} (fault : ReconcileFault) (now : Timestamp) : h.Amiss m → ¬Tells m fault m.status.conditions →
      Course m h (.call (.store (.updateStatus (failed m fault now))) fun _ => .done (.error fault))
  | settled {h : Heard} : h.Shows true → ¬m.metadata.deletionRequested → UpToDate m → Course m h (.done (.ok .never))
  | record {h : Heard} (now : Timestamp) : h.Shows true → ¬m.metadata.deletionRequested → ¬UpToDate m →
      Course m h (.call (.store (.updateStatus (adopted m now))) (concluded .never))
  | release {h : Heard} : h.Shows false → m.metadata.deletionRequested →
      Course m h (.call (.store (.update (released m))) (concluded .never))

namespace Course

variable {h : Heard}

theorem fail (ha : h.Amiss m) (fault : ReconcileFault) : Course m h (Reconcile.fail m fault) := by
  rw [fail_eq]
  refine .clock fun now => ?_
  split
  · rename_i hchanged
    refine .tell fault now ha fun htells => ?_
    rw [failed_unchanged_iff.mpr htells] at hchanged
    cases hchanged
  · rename_i hsame
    exact .told fault ha (failed_unchanged_iff.mp (Bool.eq_false_iff.mpr hsame))

theorem failing (fault : BackendFault) : Course m .failed (Reconcile.fail m (.backend fault)) :=
  fail (h := .failed) trivial _

theorem adopt (hs : h.Shows true) (hd : ¬m.metadata.deletionRequested) :
    Course m h (Reconcile.adopt m m.instanceName) := by
  rw [adopt_concluded]
  refine .clock fun now => ?_
  by_cases hup : UpToDate m
  · rw [if_pos (adoptedStatus_eq_iff.mpr hup)]
    exact .settled hs hd hup
  · rw [if_neg fun hsame => hup (adoptedStatus_eq_iff.mp hsame)]
    exact .record now hs hd hup

theorem removeMarker (hs : h.Shows false) (hd : m.metadata.deletionRequested) (hmark : m.hasMarker machineMarker) :
    Course m h (Reconcile.removeMarker m) := by
  rw [removeMarker_concluded hmark]
  exact .release hs hd

theorem afterAbsent (hd : ¬m.metadata.deletionRequested) :
    Course m (.looked false) (Reconcile.create m (.ofSpec m.instanceName m.spec)) := by
  have hd' : m.metadata.deletionRequested = false := Bool.eq_false_iff.mpr hd
  rw [create_eq]
  refine .create hd (fun fault => failing fault) (.confirm (fun fault => failing fault) fun there => ?_)
  cases there with
  | true => exact adopt rfl hd
  | false => exact fail (h := .confirmed false) hd'.symm _

theorem afterPresent (hd : m.metadata.deletionRequested) (hmark : m.hasMarker machineMarker) :
    Course m (.looked true) (Reconcile.delete m m.instanceName) := by
  rw [delete_eq]
  refine .delete hd (fun fault => failing fault) (.confirm (fun fault => failing fault) fun there => ?_)
  cases there with
  | true => exact fail (h := .confirmed true) hd.symm _
  | false => exact removeMarker rfl hd hmark

theorem observe (hmark : m.hasMarker machineMarker) {pending : Pending}
    (hp : pending = if m.metadata.deletionRequested then .deleting m.instanceName else .live m.instanceName) :
    Course m .nothing (Reconcile.observe m pending) := by
  have hname : pending.instanceName = m.instanceName := by
    rw [hp]
    split <;> rfl
  rw [observe_eq, hname]
  refine .connect (fun fault => failing fault) (.look (fun fault => failing fault) fun there => ?_)
  by_cases hd : m.metadata.deletionRequested = true
  · rw [hp, if_pos hd]
    cases there with
    | true => exact afterPresent hd hmark
    | false => exact removeMarker rfl hd hmark
  · rw [hp, if_neg hd]
    cases there with
    | true => exact adopt rfl hd
    | false => exact afterAbsent hd

end Course

/-- What a reconcile does that has read its machine. -/
theorem afterRead_cases (m : Machine) :
    (m.metadata.deletionRequested ∧ ¬m.hasMarker machineMarker ∧ afterRead m = .done (.ok .never)) ∨
    (¬m.metadata.deletionRequested ∧ ¬m.hasMarker machineMarker ∧
      afterRead m = .call (.store (.update (marked m))) (concluded .immediate)) ∨
    (m.hasMarker machineMarker ∧ Course m .nothing (afterRead m)) := by
  unfold afterRead
  cases hdecision : Decision.of m with
  | done =>
    obtain ⟨hd, hmark⟩ := Decision.of_eq_done_iff.mp hdecision
    exact .inl ⟨hd, hmark, rfl⟩
  | addMarker =>
    obtain ⟨hd, hmark⟩ := Decision.of_eq_addMarker_iff.mp hdecision
    exact .inr (.inl ⟨hd, hmark, addMarker_concluded hmark⟩)
  | observe pending =>
    obtain ⟨hmark, hp⟩ := Decision.of_eq_observe_iff.mp hdecision
    exact .inr (.inr ⟨hmark, Course.observe hmark hp⟩)

/-- What a reconcile does with what it has read. -/
def onRead : Except StoreFault (Option Machine) → MachinePlan
  | .error fault => .done (.error (.store fault))
  | .ok none => .done (.ok .never)
  | .ok (some m) => afterRead m

/-- A reconcile reads its machine first. -/
theorem machine_eq_onRead (key : Key) : machine key = .call (.store (.get key)) onRead := by
  rw [machine_eq]
  refine congrArg (Plan.call _) (funext fun x => ?_)
  match x with
  | .error _ => rfl
  | .ok none => rfl
  | .ok (some _) => rfl

end Reconcile

end MachineKeeper
