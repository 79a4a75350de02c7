/-
  MachineKeeper.Proofs.Reconcile.Timeless — machines up to the times in their conditions.

  A condition keeps the time since when its status has held, and that is the one thing about a
  machine that a look at the wall clock gets into. Taking the times out (`timeless`) goes with
  everything that is done to a machine: setting a condition, with its answer whether anything has
  changed, and every write. So two machines that differ in these times only (`Alike`) are treated
  alike, and stay alike.

  Proved:
  - `Condition.set_timeless`: setting a condition does not depend on times.
  - `Alike.updated`, `Alike.statusUpdated`: neither do writes.
  - `failed_changed_eq`, `upToDate_iff`: nor does whether a write is due.
-/

import MachineKeeper.Proofs.Reconcile.Course

namespace MachineKeeper

/-! ## Conditions -/

namespace Condition

/-- The condition, whenever its status came about. -/
def timeless (c : Condition) : Condition := { c with changedAt := someTime }

theorem amend_timeless (old new : Condition) :
    amend old.timeless new.timeless = ((amend old new).1.timeless, (amend old new).2) := by
  unfold amend timeless
  simp

theorem set_timeless (new : Condition) (cs : List Condition) :
    set new.timeless (cs.map timeless) = ((set new cs).1.map timeless, (set new cs).2) := by
  induction cs with
  | nil => rfl
  | cons old rest ih =>
    have htype : old.timeless.type = new.timeless.type ↔ old.type = new.type := Iff.rfl
    by_cases ht : old.type = new.type
    · simp only [set, List.map_cons, htype, if_pos ht, amend_timeless]
    · simp only [set, List.map_cons, htype, if_neg ht, ih]

theorem set_alike {new new' : Condition} {cs cs' : List Condition} (hnew : new.timeless = new'.timeless)
    (hcs : cs.map timeless = cs'.map timeless) :
    (set new cs).1.map timeless = (set new' cs').1.map timeless ∧ (set new cs).2 = (set new' cs').2 := by
  have h := set_timeless new cs
  rw [hnew, hcs, set_timeless] at h
  exact ⟨(Prod.mk.inj h).1.symm, (Prod.mk.inj h).2.symm⟩

end Condition

/-! ## Machines -/

/-- The machine without the times in its conditions. -/
def Object.timeless (m : Machine) : Machine :=
  { m with status.conditions := m.status.conditions.map Condition.timeless }

/-- The same machine, up to the times in its conditions. -/
def Alike (m m' : Machine) : Prop := m.timeless = m'.timeless

namespace Alike

variable {m m' o o' : Machine}

theorem refl (m : Machine) : Alike m m := rfl

theorem eq (h : Alike m m') : m.timeless = m'.timeless := h

theorem metadata (h : Alike m m') : m.metadata = m'.metadata := (congrArg Object.metadata h.eq :)

theorem spec (h : Alike m m') : m.spec = m'.spec := (congrArg Object.spec h.eq :)

theorem instanceId (h : Alike m m') : m.status.instanceId = m'.status.instanceId :=
  (congrArg (fun o : Machine => o.status.instanceId) h.eq :)

theorem conditions (h : Alike m m') :
    m.status.conditions.map Condition.timeless = m'.status.conditions.map Condition.timeless :=
  (congrArg (fun o : Machine => o.status.conditions) h.eq :)

theorem of_parts (hmetadata : m.metadata = m'.metadata) (hspec : m.spec = m'.spec)
    (hid : m.status.instanceId = m'.status.instanceId)
    (hconditions : m.status.conditions.map Condition.timeless = m'.status.conditions.map Condition.timeless) :
    Alike m m' := by
  obtain ⟨metadata, spec, conditions, id⟩ := m
  obtain ⟨metadata', spec', conditions', id'⟩ := m'
  simp only at hmetadata hspec hid hconditions
  simp only [Alike, Object.timeless, hmetadata, hspec, hid, hconditions]

theorem key (h : Alike m m') : m.key = m'.key := congrArg Metadata.key h.metadata

theorem instanceName (h : Alike m m') : m.instanceName = m'.instanceName :=
  Object.instanceName_eq_of h.key h.instanceId

theorem hasMarker (h : Alike m m') (marker : String) : m.hasMarker marker = m'.hasMarker marker := by
  rw [Object.hasMarker, Object.hasMarker, h.metadata]

/-- What is stored in two places that are the same up to times. -/
theorem cases_of_map_eq {a b : Option Machine} (h : a.map Object.timeless = b.map Object.timeless) :
    (a = none ∧ b = none) ∨ ∃ m m', a = some m ∧ b = some m' ∧ Alike m m' := by
  cases a with
  | none =>
    cases b with
    | none => exact .inl ⟨rfl, rfl⟩
    | some m' => cases h
  | some m =>
    cases b with
    | none => cases h
    | some m' => exact .inr ⟨m, m', rfl, rfl, Option.some.inj h⟩

/-! ### Writes -/

theorem current_iff (h : Alike m m') (ho : Alike o o') : m.Current o ↔ m'.Current o' := by
  rw [Object.Current, Object.Current, h.metadata, ho.metadata]

theorem updated (h : Alike m m') (ho : Alike o o') : Alike (m.updated o) (m'.updated o') := by
  have hstep : m.timeless.updated o.timeless = m'.timeless.updated o'.timeless := by
    rw [h.eq, ho.eq]
  exact hstep

theorem statusUpdated (h : Alike m m') (ho : Alike o o') : Alike (m.statusUpdated o) (m'.statusUpdated o') := by
  have hstep : m.timeless.statusUpdated o.timeless = m'.timeless.statusUpdated o'.timeless := by
    rw [h.eq, ho.eq]
  exact hstep

theorem purgeable (h : Alike m m') : m.purgeable = m'.purgeable := by
  rw [Object.purgeable, Object.purgeable, h.metadata]

theorem addMarker (h : Alike m m') (marker : String) :
    Alike (m.addMarker marker).1 (m'.addMarker marker).1 := by
  rw [Object.addMarker, Object.addMarker, h.hasMarker]
  split
  · exact h
  · exact of_parts (by rw [h.metadata]) h.spec h.instanceId h.conditions

theorem removeMarker (h : Alike m m') (marker : String) :
    Alike (m.removeMarker marker).1 (m'.removeMarker marker).1 ∧
      (m.removeMarker marker).2 = (m'.removeMarker marker).2 := by
  rw [Object.removeMarker, Object.removeMarker, h.metadata]
  exact ⟨of_parts rfl h.spec h.instanceId h.conditions, rfl⟩

end Alike

/-! ## What a reconcile writes -/

namespace Reconcile

variable {m m' : Machine}

theorem failedCondition_timeless (h : Alike m m') (fault : ReconcileFault) (now now' : Timestamp) :
    (failedCondition m fault now).timeless = (failedCondition m' fault now').timeless := by
  unfold failedCondition Condition.timeless
  rw [h.metadata]

theorem readyCondition_timeless (h : Alike m m') (name : String) (now now' : Timestamp) :
    (readyCondition m name now).timeless = (readyCondition m' name now').timeless := by
  unfold readyCondition Condition.timeless
  rw [h.metadata]

theorem failed_changed_eq (h : Alike m m') (fault : ReconcileFault) (now now' : Timestamp) :
    (Condition.set (failedCondition m fault now) m.status.conditions).2 =
      (Condition.set (failedCondition m' fault now') m'.status.conditions).2 :=
  (Condition.set_alike (failedCondition_timeless h fault now now') h.conditions).2

theorem alike_failed (h : Alike m m') (fault : ReconcileFault) (now now' : Timestamp) :
    Alike (failed m fault now) (failed m' fault now') := by
  refine .of_parts h.metadata h.spec h.instanceId ?_
  exact (Condition.set_alike (failedCondition_timeless h fault now now') h.conditions).1

theorem upToDate_iff (h : Alike m m') : UpToDate m ↔ UpToDate m' := by
  unfold UpToDate
  rw [h.instanceId, h.instanceName]
  refine and_congr_right fun _ => forall_congr' fun now => ?_
  rw [(Condition.set_alike (readyCondition_timeless h m'.instanceName now now) h.conditions).2]

theorem alike_adopted (h : Alike m m') (now now' : Timestamp) : Alike (adopted m now) (adopted m' now') := by
  refine .of_parts h.metadata h.spec h.instanceName ?_
  show (Condition.set (readyCondition m m.instanceName now) m.status.conditions).1.map Condition.timeless = _
  rw [h.instanceName]
  exact (Condition.set_alike (readyCondition_timeless h m'.instanceName now now') h.conditions).1

end Reconcile

end MachineKeeper
