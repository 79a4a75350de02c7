/-
  MachineKeeper.Proofs.Reconcile.News — a reconcile writes only what is news.

  One reconcile of a stored machine writes at most once. What it stores then differs from what was
  stored in more than its version (`Differs`), or it takes the machine away; and a fault is written
  only if the condition does not tell it yet. What the clock says has no part in it.

  Proved:
  - `wrote_machine`: what one reconcile has written, whatever the backend has answered and wherever
    it was broken off.
  - `Wrote.versioned`: the version has been raised if and only if something else has changed.
  - `again_tells`: a fault that is told already is not written again, however often it comes back.
-/

import MachineKeeper.Proofs.Reconcile.Course

namespace MachineKeeper

namespace Reconcile

/-! ## What a write changes -/

/-- In more than the version. -/
def Differs (m m' : Machine) : Prop := { m' with metadata.resourceVersion := m.metadata.resourceVersion } ≠ m

/-- The version counts the changes of a machine, and nothing else does. -/
structure Versioned (m m' : Machine) : Prop where
  raised : m'.metadata.resourceVersion = m.metadata.resourceVersion + 1 ↔ Differs m m'
  same : ¬Differs m m' → m' = m
  /-- By one, as long as there are numbers left. -/
  byOne : Differs m m' → m.metadata.resourceVersion.toNat + 1 < UInt64.size →
    m'.metadata.resourceVersion.toNat = m.metadata.resourceVersion.toNat + 1

variable {s : Memory .machine} {m : Machine}

theorem differs_withStatus {status : MachineStatus} (h : status ≠ m.status) : Differs m (m.withStatus status) := by
  intro hsame
  exact h (congrArg Object.status hsame)

theorem differs_withMarkers {fs : List String} (h : collapse fs ≠ m.metadata.finalizers) :
    Differs m (m.withMarkers fs) := by
  intro hsame
  exact h (congrArg (fun o : Machine => o.metadata.finalizers) hsame)

theorem differs_failed {fault : ReconcileFault} (h : ¬Tells m fault m.status.conditions) (now : Timestamp) :
    Differs m (m.withStatus (failedStatus m fault now)) := by
  apply differs_withStatus
  intro hsame
  have hset : (Condition.set (failedCondition m fault now) m.status.conditions).1 = m.status.conditions :=
    congrArg MachineStatus.conditions hsame
  exact h (failed_unchanged_iff.mp (Condition.set_eq_iff.mp hset))

theorem differs_adopted (h : ¬UpToDate m) (now : Timestamp) :
    Differs m (m.withStatus (adoptedStatus m m.instanceName now)) := by
  apply differs_withStatus
  intro hsame
  exact h (adoptedStatus_eq_iff.mp hsame)

theorem differs_marked (h : ¬m.hasMarker machineMarker) :
    Differs m (m.withMarkers (m.metadata.finalizers ++ [machineMarker])) := by
  apply differs_withMarkers
  intro hsame
  apply h
  rw [Object.hasMarker_iff, ← hsame, mem_collapse]
  simp

theorem differs_released (h : m.hasMarker machineMarker) : Differs m (m.withMarkers (foreignMarkers m)) := by
  apply differs_withMarkers
  intro hsame
  rw [Object.hasMarker_iff, ← hsame, mem_collapse] at h
  simp [foreignMarkers] at h

/-! ## What one reconcile has written -/

/-- Nothing, or something else than was there. -/
inductive Wrote (s : Memory .machine) (m : Machine) : Run → Prop
  | nothing (result : Option (Except ReconcileFault Requeue)) : Wrote s m ⟨result, s, []⟩
  | machine (result : Option (Except ReconcileFault Requeue)) (m' : Machine) (c : StoreCall .machine) :
      m'.metadata.resourceVersion = m.metadata.resourceVersion + 1 → Differs m m' →
      (∀ fault, result = some (.error fault) → ¬Tells m fault m.status.conditions) →
      Wrote s m ⟨result, s.insert m.key m', [c]⟩
  | purged (c : StoreCall .machine) : Wrote s m ⟨some (.ok .never), s.erase m.key, [c]⟩

open Surroundings in
theorem wrote_course {h : Heard} {p : MachinePlan} (hc : Course m h p) (hm : s.get? m.key = some m)
    (hmark : m.hasMarker machineMarker) (w : Surroundings) (n : Nat) : Wrote s m (w.carry p n s) := by
  induction hc generalizing n with
  | connect _ _ hfault hok | create _ _ _ hfault hok | delete _ _ _ hfault hok =>
    refine carry_backend (.nothing none) fun x => ?_
    cases x with
    | error fault => exact hfault fault _
    | ok _ => exact hok _
  | look _ _ hfault hok | confirm _ _ hfault hok =>
    refine carry_backend (.nothing none) fun x => ?_
    cases x with
    | error fault => exact hfault fault _
    | ok there => exact hok there _
  | clock _ hnext => exact carry_wallClock (.nothing none) fun now => hnext now _
  | told fault _ _ => exact .nothing _
  | tell fault now _ hnews =>
    refine carry_updateStatus hm rfl rfl (.nothing none) (.machine _ _ _ rfl (differs_failed hnews now) ?_)
    intro fault' h
    cases h
    exact hnews
  | settled _ _ _ => exact .nothing _
  | record now _ _ hnews =>
    refine carry_updateStatus hm rfl rfl (.nothing none) (.machine _ _ _ rfl (differs_adopted hnews now) ?_)
    intro fault h
    cases h
  | release _ hd =>
    refine carry_update hm rfl rfl (.nothing none) ?_
    rw [released, Object.updated_eq_withMarkers]
    split
    · exact .purged _
    · refine .machine _ _ _ rfl (differs_released hmark) ?_
      intro fault h
      cases h

open Surroundings in
theorem wrote_machine (w : Surroundings) (hm : s.get? m.key = some m) : Wrote s m (w.carry (machine m.key) 0 s) := by
  rw [machine_eq_onRead]
  refine carry_get (.nothing none) ?_
  rw [hm]
  rcases afterRead_cases m with ⟨_, _, hdone⟩ | ⟨hd, hmark, hwrite⟩ | ⟨hmark, hc⟩
  · show Wrote s m (w.carry (afterRead m) 1 s)
    rw [hdone]
    exact .nothing _
  · show Wrote s m (w.carry (afterRead m) 1 s)
    rw [hwrite]
    refine carry_update hm rfl rfl (.nothing none) ?_
    have hstays : ¬(m.withMarkers (m.metadata.finalizers ++ [machineMarker])).purgeable :=
      fun h => hd (Object.purgeable_withMarkers_iff.mp h).1
    rw [marked, Object.updated_eq_withMarkers, if_neg hstays]
    refine .machine _ _ _ rfl (differs_marked hmark) ?_
    intro fault h
    cases h
  · exact wrote_course hc hm hmark w 1

theorem Wrote.versioned {r : Run} (h : Wrote s m r) (hm : s.get? m.key = some m) {m' : Machine}
    (hm' : r.store.get? m.key = some m') : Versioned m m' := by
  cases h with
  | nothing result =>
    rw [hm] at hm'
    cases hm'
    have hsame : ¬Differs m m := fun h => h rfl
    refine ⟨⟨fun h => ?_, fun h => absurd h hsame⟩, fun _ => rfl, fun h => absurd h hsame⟩
    exact absurd h (by simp)
  | machine result m'' c hv hd _ =>
    rw [get?_insert_self] at hm'
    cases hm'
    refine ⟨⟨fun _ => hd, fun _ => hv⟩, fun h => absurd hd h, fun _ hlt => ?_⟩
    rw [hv]
    exact version_succ (Nat.le_refl _) hlt
  | purged c =>
    rw [Catalog.get?_erase, if_pos rfl] at hm'
    cases hm'

/-- A fault that is told already is not news. -/
theorem Wrote.nothing_of_tells {r : Run} (h : Wrote s m r) {fault : ReconcileFault}
    (hr : r.result = some (.error fault)) (htells : Tells m fault m.status.conditions) : r.store = s ∧ r.writes = [] := by
  cases h with
  | nothing result => exact ⟨rfl, rfl⟩
  | machine result m' c _ _ hnews => exact absurd htells (hnews fault hr)
  | purged c => cases hr

/-- One reconcile of the key after the other, each with its own surroundings. -/
def again (key : Key) : List Surroundings → Memory .machine → List Run
  | [], _ => []
  | w :: ws, s =>
    let r := w.carry (machine key) 0 s
    r :: again key ws r.store

theorem again_tells (hm : s.get? m.key = some m) {ws : List Surroundings}
    (h : ∀ r ∈ again m.key ws s, ∃ fault, r.result = some (.error fault) ∧ Tells m fault m.status.conditions) :
    ∀ r ∈ again m.key ws s, r.store = s ∧ r.writes = [] := by
  induction ws with
  | nil =>
    intro r hr
    cases hr
  | cons w ws ih =>
    obtain ⟨fault, hfault, htells⟩ := h _ (List.mem_cons_self ..)
    have hfirst := (wrote_machine w hm).nothing_of_tells hfault htells
    simp only [again, hfirst.1, List.mem_cons] at h ⊢
    intro r hr
    rcases hr with rfl | hr
    · exact hfirst
    · exact ih (fun r hr => h r (.inr hr)) r hr

end Reconcile

end MachineKeeper
