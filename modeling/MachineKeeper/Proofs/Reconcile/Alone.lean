/-
  MachineKeeper.Proofs.Reconcile.Alone — what one reconcile leaves in a store that is its own.

  A run writes once at most, and then it is done; `Effect` lists what it can have written, with
  the result it gives, whatever the backend has answered and wherever the run was broken off. All
  that is to be said about a run is read off that list (`Footprint`).

  Proved:
  - `effect_machine`: the run of a stored machine is one of the list.
  - `footprint_machine`: so spec, generation, id, times, the other conditions and the markers of
    others stay; a fault is told in the condition and changes nothing else; and what each other
    result says about the stored machine is so.
-/

import MachineKeeper.Proofs.Object.Condition
import MachineKeeper.Proofs.Object.Marker
import MachineKeeper.Proofs.Reconcile.Calls
import MachineKeeper.Proofs.Reconcile.Run

namespace MachineKeeper

/-! ## What a run can have written -/

namespace Object

/-- The next version, with another status. -/
def withStatus (m : Machine) (status : MachineStatus) : Machine :=
  { m with metadata.resourceVersion := m.metadata.resourceVersion + 1, status := status }

/-- The next version, with other markers. -/
def withMarkers (m : Machine) (fs : List String) : Machine :=
  { m with metadata.resourceVersion := m.metadata.resourceVersion + 1, metadata.finalizers := collapse fs }

theorem updated_eq_withMarkers (m : Machine) (fs : List String) :
    m.updated { m with metadata.finalizers := fs } = m.withMarkers fs := by
  simp [updated, withMarkers]

theorem purgeable_withMarkers_iff {m : Machine} {fs : List String} :
    (m.withMarkers fs).purgeable ↔ m.metadata.deletionRequested ∧ fs = [] := by
  rw [purgeable, Bool.and_eq_true, List.isEmpty_iff]
  exact and_congr_right fun _ => collapse_eq_nil_iff

end Object

namespace Reconcile

/-- The status of a machine whose reconcile has failed. -/
def failedStatus (m : Machine) (fault : ReconcileFault) (now : Timestamp) : MachineStatus :=
  { m.status with conditions := (Condition.set (failedCondition m fault now) m.status.conditions).1 }

inductive Effect (s : Memory .machine) (m : Machine) : Run → Prop
  | broken : Effect s m ⟨none, s, []⟩
  | idle : Effect s m ⟨some (.ok .never), s, []⟩
  /-- The fault is in the condition already. -/
  | known (fault : ReconcileFault) (now : Timestamp) :
      (Condition.set (failedCondition m fault now) m.status.conditions).2 = false →
      Effect s m ⟨some (.error fault), s, []⟩
  | failed (fault : ReconcileFault) (now : Timestamp) (c : StoreCall .machine) :
      Effect s m ⟨some (.error fault), s.insert m.key (m.withStatus (failedStatus m fault now)), [c]⟩
  | adopted (now : Timestamp) (c : StoreCall .machine) :
      Effect s m ⟨some (.ok .never), s.insert m.key (m.withStatus (adoptedStatus m m.instanceName now)), [c]⟩
  | marked (c : StoreCall .machine) : ¬m.hasMarker machineMarker → ¬m.metadata.deletionRequested →
      Effect s m ⟨some (.ok .immediate),
        s.insert m.key (m.withMarkers (m.metadata.finalizers ++ [machineMarker])), [c]⟩
  /-- The marker goes, and with the last one the machine. -/
  | released (c : StoreCall .machine) (fs : List String) : m.metadata.deletionRequested →
      m.metadata.finalizers.filter (· ≠ machineMarker) = fs →
      Effect s m ⟨some (.ok .never), if fs = [] then s.erase m.key else s.insert m.key (m.withMarkers fs), [c]⟩

/-! ## The parts of a reconcile -/

namespace Effect

open Surroundings

variable {w : Surroundings} {n : Nat} {s : Memory .machine} {m : Machine}

theorem fail (hm : s.get? m.key = some m) (fault : ReconcileFault) :
    Effect s m (w.carry (Reconcile.fail m fault) n s) := by
  rw [fail_eq]
  refine carry_wallClock .broken fun now => ?_
  split
  · exact carry_updateStatus hm rfl rfl .broken (.failed fault now _)
  · rename_i hchanged
    exact .known fault now (Bool.eq_false_iff.mpr hchanged)

theorem adopt (hm : s.get? m.key = some m) : Effect s m (w.carry (Reconcile.adopt m m.instanceName) n s) := by
  rw [adopt_eq]
  refine carry_wallClock .broken fun now => ?_
  split
  · exact .idle
  · exact carry_updateStatus hm rfl rfl .broken (.adopted now _)

theorem addMarker (hm : s.get? m.key = some m) (hmark : ¬m.hasMarker machineMarker)
    (hd : ¬m.metadata.deletionRequested) : Effect s m (w.carry (Reconcile.addMarker m) n s) := by
  have hadd : (m.addMarker machineMarker).1 =
      { m with metadata.finalizers := m.metadata.finalizers ++ [machineMarker] } := by
    rw [Object.addMarker, if_neg hmark]
  have hstays : ¬(m.withMarkers (m.metadata.finalizers ++ [machineMarker])).purgeable :=
    fun h => hd (Object.purgeable_withMarkers_iff.mp h).1
  rw [addMarker_eq, hadd]
  refine carry_update hm rfl rfl .broken ?_
  rw [Object.updated_eq_withMarkers, if_neg hstays]
  exact .marked _ hmark hd

theorem removeMarker (hm : s.get? m.key = some m) (hd : m.metadata.deletionRequested) :
    Effect s m (w.carry (Reconcile.removeMarker m) n s) := by
  rw [removeMarker_eq]
  split
  · refine carry_update hm rfl rfl .broken ?_
    have hremove : (m.removeMarker machineMarker).1 =
        { m with metadata.finalizers := m.metadata.finalizers.filter (· ≠ machineMarker) } := rfl
    generalize hfs : m.metadata.finalizers.filter (· ≠ machineMarker) = fs at hremove
    rw [hremove, Object.updated_eq_withMarkers]
    simp only [Object.purgeable_withMarkers_iff, hd, true_and]
    exact .released _ fs hd hfs
  · exact .idle

theorem create (hm : s.get? m.key = some m) {r : InstanceRequest} (hr : r.name = m.instanceName) :
    Effect s m (w.carry (Reconcile.create m r) n s) := by
  rw [create_eq]
  refine carry_backend .broken fun x => ?_
  cases x with
  | error fault => exact fail hm _
  | ok _ =>
    refine carry_backend .broken fun x => ?_
    match x with
    | .error fault => exact fail hm _
    | .ok false => exact fail hm _
    | .ok true =>
      rw [hr]
      exact adopt hm

theorem delete (hm : s.get? m.key = some m) (hd : m.metadata.deletionRequested) (name : String) :
    Effect s m (w.carry (Reconcile.delete m name) n s) := by
  rw [delete_eq]
  refine carry_backend .broken fun x => ?_
  cases x with
  | error fault => exact fail hm _
  | ok _ =>
    refine carry_backend .broken fun x => ?_
    match x with
    | .error fault => exact fail hm _
    | .ok true => exact fail hm _
    | .ok false => exact removeMarker hm hd

theorem observe (hm : s.get? m.key = some m) {pending : Pending}
    (hp : pending = if m.metadata.deletionRequested then .deleting m.instanceName else .live m.instanceName) :
    Effect s m (w.carry (Reconcile.observe m pending) n s) := by
  rw [observe_eq]
  refine carry_backend .broken fun x => ?_
  cases x with
  | error fault => exact fail hm _
  | ok _ =>
    refine carry_backend .broken fun x => ?_
    by_cases hd : m.metadata.deletionRequested = true
    · rw [if_pos hd] at hp
      subst hp
      match x with
      | .error fault => exact fail hm _
      | .ok true => exact delete hm hd _
      | .ok false => exact removeMarker hm hd
    · rw [if_neg hd] at hp
      subst hp
      match x with
      | .error fault => exact fail hm _
      | .ok true => exact adopt hm
      | .ok false => exact create hm rfl

end Effect

theorem effect_machine (w : Surroundings) {s : Memory .machine} {m : Machine} (hm : s.get? m.key = some m) :
    Effect s m (w.carry (machine m.key) 0 s) := by
  rw [machine_eq]
  refine Surroundings.carry_get .broken ?_
  rw [hm]
  cases hdecision : Decision.of m with
  | done =>
    simp only [hdecision]
    exact .idle
  | addMarker =>
    obtain ⟨hd, hmark⟩ := Decision.of_eq_addMarker_iff.mp hdecision
    simp only [hdecision]
    exact Effect.addMarker hm hmark hd
  | observe pending =>
    simp only [hdecision]
    exact Effect.observe hm (Decision.of_eq_observe_iff.mp hdecision).2

/-! ## What every run keeps -/

/-- The markers of others. -/
def foreignMarkers (m : Machine) : List String := m.metadata.finalizers.filter (· ≠ machineMarker)

/-- What no reconcile changes about a machine. -/
structure Kept (m m' : Machine) : Prop where
  key : m'.key = m.key
  uid : m'.metadata.uid = m.metadata.uid
  generation : m'.metadata.generation = m.metadata.generation
  createdAt : m'.metadata.createdAt = m.metadata.createdAt
  deletedAt : m'.metadata.deletedAt = m.metadata.deletedAt
  spec : m'.spec = m.spec
  /-- All but the first one that sums up the instance. -/
  conditions : Condition.others readyType m'.status.conditions = Condition.others readyType m.status.conditions
  /-- Each of them, in the order in which they come first. -/
  markers : (foreignMarkers m').eraseDups = (foreignMarkers m).eraseDups

/-- The condition that sums up the instance says that the reconcile failed, and why. -/
def Tells (m : Machine) (fault : ReconcileFault) (cs : List Condition) : Prop :=
  ∃ c, Condition.find? readyType cs = some c ∧ c.status = .no ∧ c.reason = fault.reason ∧
    c.message = fault.message ∧ c.observedGeneration = m.metadata.generation

/-- What is left in the store by a run of the reconcile of `m`. -/
structure Footprint (s : Memory .machine) (m : Machine) (r : Run) : Prop where
  writes : r.writes.length ≤ 1
  others : ∀ key ≠ m.key, r.store.get? key = s.get? key
  kept : ∀ m', r.store.get? m.key = some m' → Kept m m'
  /-- Nothing is given up that another marker holds. -/
  gone : r.store.get? m.key = none → foreignMarkers m = []
  broken : r.result = none → r.store = s
  fault : ∀ fault, r.result = some (.error fault) → ∃ m', r.store.get? m.key = some m' ∧
    m'.metadata.finalizers = m.metadata.finalizers ∧ m'.status.instanceId = m.status.instanceId ∧
    Tells m fault m'.status.conditions
  immediate : r.result = some (.ok .immediate) → r.store.get? m.key = some
    { m with
      metadata.resourceVersion := m.metadata.resourceVersion + 1
      metadata.finalizers := collapse m.metadata.finalizers ++ [machineMarker] }
  /-- Nothing has changed, or the instance is recorded as it was seen, or the marker is off. -/
  never : r.result = some (.ok .never) →
    r.store.get? m.key = some m ∨
    (∃ status : MachineStatus, r.store.get? m.key = some (m.withStatus status) ∧
      status.instanceId = m.instanceName ∧
      ∃ c, Condition.find? readyType status.conditions = some c ∧ c.status = .yes) ∨
    (m.metadata.deletionRequested ∧ r.store.get? m.key =
      if foreignMarkers m = [] then none else some (m.withMarkers (foreignMarkers m)))
  notLater : ∀ delay, r.result ≠ some (.ok (.after delay))

theorem kept_refl (m : Machine) : Kept m m := ⟨rfl, rfl, rfl, rfl, rfl, rfl, rfl, rfl⟩

theorem kept_withStatus {m : Machine} {status : MachineStatus}
    (h : Condition.others readyType status.conditions = Condition.others readyType m.status.conditions) :
    Kept m (m.withStatus status) := ⟨rfl, rfl, rfl, rfl, rfl, rfl, h, rfl⟩

theorem kept_withMarkers {m : Machine} {fs : List String}
    (h : (fs.filter (· ≠ machineMarker)).eraseDups = (foreignMarkers m).eraseDups) : Kept m (m.withMarkers fs) :=
  ⟨rfl, rfl, rfl, rfl, rfl, rfl, rfl, (eraseDups_filter_collapse _ fs).trans h⟩

theorem kept_failed (m : Machine) (fault : ReconcileFault) (now : Timestamp) :
    Kept m (m.withStatus (failedStatus m fault now)) :=
  kept_withStatus (Condition.others_set (failedCondition m fault now) m.status.conditions)

theorem kept_adopted (m : Machine) (now : Timestamp) :
    Kept m (m.withStatus (adoptedStatus m m.instanceName now)) :=
  kept_withStatus (Condition.others_set (readyCondition m m.instanceName now) m.status.conditions)

theorem tells_failed (m : Machine) (fault : ReconcileFault) (now : Timestamp) :
    Tells m fault (failedStatus m fault now).conditions := by
  obtain ⟨c, hc, hstatus, hgeneration, hreason, hmessage⟩ :=
    Condition.find?_set (failedCondition m fault now) m.status.conditions
  exact ⟨c, hc, hstatus, hreason, hmessage, hgeneration⟩

/-- A write of a machine under its own key. -/
theorem get?_insert_self (s : Memory .machine) (m m' : Machine) : (s.insert m.key m').get? m.key = some m' := by
  rw [Catalog.get?_insert, if_pos rfl]

theorem get?_insert_of_ne {s : Memory .machine} {m m' : Machine} {key : Key} (h : key ≠ m.key) :
    (s.insert m.key m').get? key = s.get? key := by
  rw [Catalog.get?_insert, if_neg h.symm]

/-! ## The footprint of each effect -/

section

variable {s : Memory .machine} {m : Machine}

theorem footprint_unchanged (hm : s.get? m.key = some m) {result : Option (Except ReconcileFault Requeue)}
    (hfault : ∀ fault, result = some (.error fault) → Tells m fault m.status.conditions)
    (hok : ∀ requeue, result = some (.ok requeue) → requeue = .never) : Footprint s m ⟨result, s, []⟩ where
  writes := Nat.zero_le 1
  others _ _ := rfl
  kept m' h := by
    rw [hm] at h
    cases h
    exact kept_refl m
  gone h := by
    rw [hm] at h
    cases h
  broken _ := rfl
  fault fault h := ⟨m, hm, rfl, rfl, hfault fault h⟩
  immediate h := by cases hok _ h
  never _ := .inl hm
  notLater delay h := by cases hok _ h

theorem footprint_known (hm : s.get? m.key = some m) {fault : ReconcileFault} {now : Timestamp}
    (h : (Condition.set (failedCondition m fault now) m.status.conditions).2 = false) :
    Footprint s m ⟨some (.error fault), s, []⟩ := by
  have htells := tells_failed m fault now
  rw [failedStatus, Condition.set_of_unchanged h] at htells
  refine footprint_unchanged hm ?_ ?_
  · rintro _ ⟨⟩
    exact htells
  · rintro _ ⟨⟩

/-- A run that ends with a write of the machine. -/
theorem footprint_written (s : Memory .machine) (c : StoreCall .machine) {m' : Machine} (hkept : Kept m m')
    {result : Except ReconcileFault Requeue}
    (hfault : ∀ fault, result = .error fault → m'.metadata.finalizers = m.metadata.finalizers ∧
      m'.status.instanceId = m.status.instanceId ∧ Tells m fault m'.status.conditions)
    (himmediate : result = .ok .immediate → m' =
      { m with
        metadata.resourceVersion := m.metadata.resourceVersion + 1
        metadata.finalizers := collapse m.metadata.finalizers ++ [machineMarker] })
    (hnever : result = .ok .never → ∃ status : MachineStatus, m' = m.withStatus status ∧
      status.instanceId = m.instanceName ∧
      ∃ c, Condition.find? readyType status.conditions = some c ∧ c.status = .yes)
    (hlater : ∀ delay, result ≠ .ok (.after delay)) : Footprint s m ⟨some result, s.insert m.key m', [c]⟩ where
  writes := Nat.le_refl 1
  others key h := get?_insert_of_ne h
  kept m'' h := by
    rw [get?_insert_self] at h
    cases h
    exact hkept
  gone h := by
    rw [get?_insert_self] at h
    cases h
  broken h := by cases h
  fault fault h := ⟨m', get?_insert_self s m m', hfault fault (Option.some.inj h)⟩
  immediate h := by
    rw [get?_insert_self, himmediate (Option.some.inj h)]
  never h := by
    obtain ⟨status, rfl, hstatus⟩ := hnever (Option.some.inj h)
    exact .inr (.inl ⟨status, get?_insert_self s m _, hstatus⟩)
  notLater delay h := hlater delay (Option.some.inj h)

theorem footprint_failed (s : Memory .machine) (m : Machine) (fault : ReconcileFault) (now : Timestamp)
    (c : StoreCall .machine) :
    Footprint s m ⟨some (.error fault), s.insert m.key (m.withStatus (failedStatus m fault now)), [c]⟩ := by
  refine footprint_written s c (kept_failed m fault now) ?_ (fun h => by cases h) (fun h => by cases h)
    (fun _ h => by cases h)
  rintro _ ⟨⟩
  exact ⟨rfl, rfl, tells_failed m fault now⟩

theorem footprint_adopted (s : Memory .machine) (m : Machine) (now : Timestamp) (c : StoreCall .machine) :
    Footprint s m
      ⟨some (.ok .never), s.insert m.key (m.withStatus (adoptedStatus m m.instanceName now)), [c]⟩ := by
  refine footprint_written s c (kept_adopted m now) (fun _ h => by cases h) (fun h => by cases h) ?_
    (fun _ h => by cases h)
  intro _
  obtain ⟨ready, hready, hsays⟩ := Condition.find?_set (readyCondition m m.instanceName now) m.status.conditions
  exact ⟨_, rfl, rfl, ready, hready, hsays.1⟩

theorem footprint_marked (s : Memory .machine) (c : StoreCall .machine) (hmark : ¬m.hasMarker machineMarker) :
    Footprint s m
      ⟨some (.ok .immediate), s.insert m.key (m.withMarkers (m.metadata.finalizers ++ [machineMarker])), [c]⟩ := by
  have hkept : Kept m (m.withMarkers (m.metadata.finalizers ++ [machineMarker])) := by
    refine kept_withMarkers ?_
    rw [List.filter_append]
    simp [foreignMarkers]
  have hnew : machineMarker ∉ m.metadata.finalizers := fun h => hmark (Object.hasMarker_iff.mpr h)
  refine footprint_written s c hkept (fun _ h => by cases h) ?_ (fun h => by cases h) (fun _ h => by cases h)
  intro _
  rw [Object.withMarkers, collapse_append_of_not_mem hnew]

theorem footprint_released (s : Memory .machine) (c : StoreCall .machine) (hd : m.metadata.deletionRequested) :
    Footprint s m
      ⟨some (.ok .never),
        if foreignMarkers m = [] then s.erase m.key else s.insert m.key (m.withMarkers (foreignMarkers m)), [c]⟩ := by
  have hstored : (if foreignMarkers m = [] then s.erase m.key
      else s.insert m.key (m.withMarkers (foreignMarkers m))).get? m.key =
        if foreignMarkers m = [] then none else some (m.withMarkers (foreignMarkers m)) := by
    split
    · rw [Catalog.get?_erase, if_pos rfl]
    · exact get?_insert_self s m _
  constructor
  case writes => exact Nat.le_refl 1
  case others =>
    intro key h
    simp only
    split
    · rw [Catalog.get?_erase, if_neg h.symm]
    · exact get?_insert_of_ne h
  case kept =>
    intro m' h
    rw [hstored] at h
    split at h
    · cases h
    · cases h
      refine kept_withMarkers ?_
      rw [foreignMarkers, List.filter_filter]
      simp
  case gone =>
    intro h
    rw [hstored] at h
    split at h
    · assumption
    · cases h
  case broken => exact fun h => by cases h
  case fault => exact fun fault h => by cases h
  case immediate => exact fun h => by cases h
  case never => exact fun _ => .inr (.inr ⟨hd, hstored⟩)
  case notLater => exact fun delay h => by cases h

/-- One reconcile of a stored machine, with a store of its own: what it leaves there, and what its
result says about that. -/
theorem footprint_machine (w : Surroundings) (hm : s.get? m.key = some m) :
    Footprint s m (w.carry (machine m.key) 0 s) := by
  have heffect := effect_machine w hm
  generalize w.carry (machine m.key) 0 s = r at heffect
  cases heffect with
  | broken => exact footprint_unchanged hm (fun _ h => by cases h) (fun _ h => by cases h)
  | idle =>
    refine footprint_unchanged hm (fun _ h => by cases h) ?_
    rintro _ ⟨⟩
    rfl
  | known fault now h => exact footprint_known hm h
  | failed fault now c => exact footprint_failed s m fault now c
  | adopted now c => exact footprint_adopted s m now c
  | marked c hmark _ => exact footprint_marked s c hmark
  | released c fs hd hfs =>
    subst hfs
    exact footprint_released s c hd

end

/-- Nothing is there, and creates time out. -/
def timedOut : Surroundings where
  backend _ c := match c with
    | .connect => .ok ()
    | .create r => .error (.create r.name "timed out")
    | .delete _ => .ok ()
    | .exist _ => .ok false
    | .close => .ok ()
  fresh _ := ⟨"", someTime⟩
  broken _ := false

theorem footprint_machine_timedOut :
    let m := newMachine ⟨"default", "w1"⟩ [machineMarker]
    let s : Memory .machine := Catalog.empty.insert m.key m
    let r := timedOut.carry (machine m.key) 0 s
    s.get? m.key = some m ∧ r.result = some (.error (.backend (.create "w1" "timed out"))) ∧ Footprint s m r :=
  have hm := get?_insert_self Catalog.empty (newMachine ⟨"default", "w1"⟩ [machineMarker]) _
  ⟨hm, rfl, footprint_machine timedOut hm⟩

end Reconcile

end MachineKeeper
