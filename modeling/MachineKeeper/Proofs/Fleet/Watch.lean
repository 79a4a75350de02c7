/-
  MachineKeeper.Proofs.Fleet.Watch — a reconcile under an accord, from what it has read.

  A reconcile reads its machine once and then works from that copy, while others go on. What it
  can still rely on later is what others spare it: it knows something about the site as long as
  its machine carries the marker (`knows`), and more once it has seen its instance gone (`gone`).

  A `Watch` says what that is under a given accord, and that each effect a reconcile has is in
  accord where it knows that much: the marker put on, a status written, an instance made or
  deleted, the marker taken off. The calls in between only look.

  Proved:
  - `Watch.keeps_machine`: so the whole reconcile keeps its terms, whatever is answered.
-/

import MachineKeeper.Proofs.Fleet.Basic
import MachineKeeper.Proofs.Object.Marker
import MachineKeeper.Proofs.Reconcile.Calls

namespace MachineKeeper

/-- The instance a call is about; a session is about none. -/
def BackendCall.name? : BackendCall → Option String
  | .create r => some r.name
  | .delete name => some name
  | .exist name => some name
  | .connect | .close => none

namespace Accord

structure Watch (A : Accord) (key : Key) where
  knows : Machine → Site → Prop
  gone : Machine → Site → Prop
  knows_outlasts : ∀ {m s t}, knows m s → A.spares key s t → knows m t
  gone_outlasts : ∀ {m s t}, gone m s → A.spares key s t → gone m t
  read : ∀ {m s}, A.inv s → s.store.get? key = some m → m.hasMarker machineMarker → knows m s
  seen : ∀ {m s}, knows m s → s.instances m.instanceName = none → gone m s
  may_store : ∀ {s} c, A.may key (.store c) s
  may_clock : ∀ {s}, A.may key .wallClock s
  may_backend : ∀ {m s c}, A.inv s → knows m s → (∀ name ∈ c.name?, name = m.instanceName) →
    A.may key (.backend c) s
  mark : ∀ {m : Machine} {s : Site} fresh, A.inv s → m.key = key →
    (A.terms key).owes s (s.call fresh (.update (m.addMarker machineMarker).1))
  restate : ∀ {m s} fresh o, A.inv s → knows m s → o.key = m.key → o.instanceName = m.instanceName →
    (A.terms key).owes s (s.call fresh (.updateStatus o))
  make : ∀ {m s}, A.inv s → knows m s →
    (A.terms key).owes s (s.put m.instanceName (.made key)) ∧ knows m (s.put m.instanceName (.made key))
  unmake : ∀ {m s}, A.inv s → knows m s →
    (A.terms key).owes s (s.take m.instanceName) ∧ knows m (s.take m.instanceName)
  release : ∀ {m s} fresh, A.inv s → knows m s → gone m s →
    (A.terms key).owes s (s.call fresh (.update (m.removeMarker machineMarker).1))

namespace Watch

open Reconcile

variable {A : Accord} {key : Key} (W : A.Watch key) {m : Machine} {s : Site}

include W

/-! ## The parts of a reconcile -/

theorem keeps_updateStatus {o : Machine} (hs : W.knows m s) (hk : o.key = m.key)
    (hn : o.instanceName = m.instanceName) {next : Except StoreFault Machine → MachinePlan}
    (hnext : ∀ x t, (next x).Keeps (A.terms key) t) :
    (Plan.call (.store (.updateStatus o)) next).Keeps (A.terms key) s :=
  keeps_act W.knows_outlasts hs (fun _ _ _ => W.may_store _) fun chance _ ht hi =>
    ⟨W.restate chance.fresh o hi ht hk hn, hnext _ _⟩

theorem keeps_fail (hs : W.knows m s) (fault : ReconcileFault) : (fail m fault).Keeps (A.terms key) s := by
  rw [fail_eq]
  refine keeps_look W.knows_outlasts (fun _ _ => rfl) hs (fun _ _ _ => W.may_clock) fun chance t ht hi => ?_
  split
  · apply W.keeps_updateStatus ht
    · rfl
    · rfl
    · exact fun _ _ => trivial
  · trivial

theorem keeps_adopt (hs : W.knows m s) : (adopt m m.instanceName).Keeps (A.terms key) s := by
  rw [adopt_eq]
  refine keeps_look W.knows_outlasts (fun _ _ => rfl) hs (fun _ _ _ => W.may_clock) fun chance t ht hi => ?_
  split
  · trivial
  · apply W.keeps_updateStatus ht
    · rfl
    · exact Object.instanceName_record m _
    · intro x u
      cases x <;> trivial

theorem keeps_removeMarker (hs : W.knows m s) (hgone : W.gone m s) :
    (removeMarker m).Keeps (A.terms key) s := by
  rw [removeMarker_eq]
  split
  · refine keeps_act (P := fun t => W.knows m t ∧ W.gone m t)
      (fun h hst => ⟨W.knows_outlasts h.1 hst, W.gone_outlasts h.2 hst⟩) ⟨hs, hgone⟩ (fun _ _ _ => W.may_store _)
      fun chance t ht hi => ⟨W.release chance.fresh hi ht.1 ht.2, ?_⟩
    split <;> trivial
  · trivial

theorem keeps_addMarker (hk : m.key = key) : (addMarker m).Keeps (A.terms key) s := by
  rw [addMarker_eq]
  refine keeps_act (P := fun _ => True) (fun _ _ => trivial) trivial (fun _ _ _ => W.may_store _)
    fun chance t _ hi => ⟨W.mark chance.fresh hi hk, ?_⟩
  split <;> trivial

/-- A look at the instance; what follows it knows whether the instance was there. -/
theorem keeps_exist (hs : W.knows m s) {next : Except BackendFault Bool → MachinePlan}
    (hfault : ∀ fault t, W.knows m t → (next (.error fault)).Keeps (A.terms key) t)
    (hthere : ∀ t, W.knows m t → (next (.ok true)).Keeps (A.terms key) t)
    (hgone : ∀ t, W.knows m t → W.gone m t → (next (.ok false)).Keeps (A.terms key) t) :
    (Plan.call (.backend (.exist m.instanceName)) next).Keeps (A.terms key) s := by
  refine keeps_look W.knows_outlasts (fun _ _ => rfl) hs (fun t ht hi => W.may_backend hi ht ?_)
    fun chance t ht hi => ?_
  · rintro name ⟨⟩
    rfl
  · generalize hx : (t.answer key chance (.backend (.exist m.instanceName))).1 = x
    match x, hx with
    | .error fault, _ => exact hfault fault t ht
    | .ok true, _ => exact hthere t ht
    | .ok false, hx =>
      have hnone := Option.not_isSome_iff_eq_none.mp (Bool.eq_false_iff.mp (Site.exist_of_answer hx))
      exact hgone t ht (W.seen ht hnone)

theorem keeps_create (hs : W.knows m s) {r : InstanceRequest} (hr : r.name = m.instanceName) :
    (create m r).Keeps (A.terms key) s := by
  rw [create_eq]
  refine keeps_act W.knows_outlasts hs (fun t ht hi => W.may_backend hi ht ?_) fun chance t ht hi => ?_
  · rintro name ⟨⟩
    exact hr
  have hact : (A.terms key).owes t (t.answer key chance (.backend (.create r))).2 ∧
      W.knows m (t.answer key chance (.backend (.create r))).2 := by
    simp only [Site.answer, hr]
    split
    · exact W.make hi ht
    · exact ⟨owes_self hi, ht⟩
  refine ⟨hact.1, ?_⟩
  split
  · exact W.keeps_fail hact.2 _
  · rw [hr]
    exact W.keeps_exist hact.2 (fun _ _ h => W.keeps_fail h _) (fun _ h => W.keeps_adopt h)
      (fun _ h _ => W.keeps_fail h _)

theorem keeps_delete (hs : W.knows m s) : (delete m m.instanceName).Keeps (A.terms key) s := by
  rw [delete_eq]
  refine keeps_act W.knows_outlasts hs (fun t ht hi => W.may_backend hi ht ?_) fun chance t ht hi => ?_
  · rintro name ⟨⟩
    rfl
  have hact : (A.terms key).owes t (t.answer key chance (.backend (.delete m.instanceName))).2 ∧
      W.knows m (t.answer key chance (.backend (.delete m.instanceName))).2 := by
    simp only [Site.answer]
    split
    · exact W.unmake hi ht
    · exact ⟨owes_self hi, ht⟩
  refine ⟨hact.1, ?_⟩
  split
  · exact W.keeps_fail hact.2 _
  · exact W.keeps_exist hact.2 (fun _ _ h => W.keeps_fail h _) (fun _ h => W.keeps_fail h _)
      (fun _ h hgone => W.keeps_removeMarker h hgone)

theorem keeps_observe (hs : W.knows m s) {pending : Pending} (hp : pending.instanceName = m.instanceName) :
    (observe m pending).Keeps (A.terms key) s := by
  rw [observe_eq]
  refine keeps_look W.knows_outlasts (fun _ _ => rfl) hs (fun t ht hi => W.may_backend hi ht ?_)
    fun chance t ht hi => ?_
  · rintro name ⟨⟩
  split
  · exact W.keeps_fail ht _
  rw [hp]
  cases pending with
  | live name =>
    cases hp
    exact W.keeps_exist ht (fun _ _ h => W.keeps_fail h _) (fun _ h => W.keeps_adopt h)
      (fun _ h _ => W.keeps_create h rfl)
  | deleting name =>
    cases hp
    exact W.keeps_exist ht (fun _ _ h => W.keeps_fail h _) (fun _ h => W.keeps_delete h)
      (fun _ h hgone => W.keeps_removeMarker h hgone)

theorem keeps_machine : (machine key).Keeps (A.terms key) s := by
  rw [machine_eq]
  refine keeps_look (P := fun _ => True) (fun _ _ => trivial) (fun _ _ => rfl) trivial
    (fun _ _ _ => W.may_store _) fun chance t _ hi => ?_
  split
  · trivial
  · trivial
  · rename_i m hget
    have hm : t.store.get? key = some m := Except.ok.inj hget
    split
    · trivial
    · exact W.keeps_addMarker (t.filed key m hm)
    · rename_i pending hd
      exact W.keeps_observe (W.read hi hm (Decision.of_eq_observe_iff.mp hd).1) (Decision.instanceName_of_observe hd)

end Watch

end Accord

end MachineKeeper
