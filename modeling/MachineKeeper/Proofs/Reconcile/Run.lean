/-
  MachineKeeper.Proofs.Reconcile.Run — a reconcile carried out against one store.

  Nobody else writes meanwhile, and the store answers by its rules. The backend answers whatever
  it likes, each call under a context that may have ended, and the reconcile may be broken off
  before any of its calls (`Surroundings`). A run is a function of these, so there is one for
  whatever surrounds the reconcile, and it comes to an end.

  There is one rule for each kind of call. Those for the backend and the clock ask for every
  answer, so what is shown by them holds whatever the surroundings are.
-/

import MachineKeeper.Proofs.Store.Change
import MachineKeeper.Reconcile.Machine

namespace MachineKeeper

/-- What a reconcile is answered, by the number of calls it has made before. -/
structure Surroundings where
  backend : Nat → (c : BackendCall) → c.Answer
  fresh : Nat → Fresh
  /-- Whether the reconcile is broken off instead of making the call. -/
  broken : Nat → Bool

structure Run where
  /-- None, if the reconcile was broken off. -/
  result : Option (Except ReconcileFault Requeue)
  store : Memory .machine
  writes : List (StoreCall .machine)

def ReconcileCall.writes : ReconcileCall .machine → List (StoreCall .machine)
  | .store (.get _) | .store .list | .backend _ | .wallClock => []
  | .store c => [c]

namespace Surroundings

def answer (w : Surroundings) (n : Nat) (s : Memory .machine) :
    (c : ReconcileCall .machine) → c.Answer × Memory .machine
  | .store c => s.perform (w.fresh n) c
  | .backend c => (w.backend n c, s)
  | .wallClock => ((w.fresh n).now, s)

def carry (w : Surroundings) : Reconcile.MachinePlan → Nat → Memory .machine → Run
  | .done r, _, s => ⟨some r, s, []⟩
  | .call c next, n, s =>
    if w.broken n then ⟨none, s, []⟩
    else
      let answer := w.answer n s c
      let rest := w.carry (next answer.1) (n + 1) answer.2
      { rest with writes := c.writes ++ rest.writes }

/-! ## The calls of a run -/

variable {w : Surroundings} {n : Nat} {s : Memory .machine} {Q : Run → Prop}

@[simp] theorem carry_done (r : Except ReconcileFault Requeue) : w.carry (.done r) n s = ⟨some r, s, []⟩ := rfl

/-- Whatever the backend answers. -/
theorem carry_backend {c : BackendCall} {next : c.Answer → Reconcile.MachinePlan} (hbroken : Q ⟨none, s, []⟩)
    (h : ∀ x, Q (w.carry (next x) (n + 1) s)) : Q (w.carry (.call (.backend c) next) n s) := by
  simp only [carry]
  split
  · exact hbroken
  · exact h (w.backend n c)

theorem carry_wallClock {next : Timestamp → Reconcile.MachinePlan} (hbroken : Q ⟨none, s, []⟩)
    (h : ∀ now, Q (w.carry (next now) (n + 1) s)) : Q (w.carry (.call .wallClock next) n s) := by
  simp only [carry]
  split
  · exact hbroken
  · exact h (w.fresh n).now

theorem carry_get {key : Key} {next : Except StoreFault (Option Machine) → Reconcile.MachinePlan}
    (hbroken : Q ⟨none, s, []⟩) (h : Q (w.carry (next (.ok (s.get? key))) (n + 1) s)) :
    Q (w.carry (.call (.store (.get key)) next) n s) := by
  simp only [carry]
  split
  · exact hbroken
  · exact h

/-- A store call that the run ends with. -/
theorem carry_last {c : StoreCall .machine} {next : c.Answer → Reconcile.MachinePlan} {x : c.Answer}
    {t : Memory .machine} {r : Except ReconcileFault Requeue} (hc : s.perform (w.fresh n) c = (x, t))
    (hlast : next x = .done r) (hbroken : Q ⟨none, s, []⟩) (h : Q ⟨some r, t, (ReconcileCall.store c).writes⟩) :
    Q (w.carry (.call (.store c) next) n s) := by
  simp only [carry]
  split
  · exact hbroken
  · simp only [answer, hc, hlast, carry_done, List.append_nil]
    exact h

variable {m o : Machine}

/-- A write of the current version is accepted. -/
theorem carry_update {next : Except StoreFault Machine → Reconcile.MachinePlan}
    {r : Except ReconcileFault Requeue} (hm : s.get? o.key = some m) (hv : m.Current o)
    (hlast : next (.ok (m.updated o)) = .done r) (hbroken : Q ⟨none, s, []⟩)
    (h : Q ⟨some r, if (m.updated o).purgeable then s.erase o.key else s.insert o.key (m.updated o), [.update o]⟩) :
    Q (w.carry (.call (.store (.update o)) next) n s) := by
  have haccepted := Memory.update_eq o s
  simp only [hm, if_pos hv] at haccepted
  exact carry_last haccepted hlast hbroken h

theorem carry_updateStatus {next : Except StoreFault Machine → Reconcile.MachinePlan}
    {r : Except ReconcileFault Requeue} (hm : s.get? o.key = some m) (hv : m.Current o)
    (hlast : next (.ok (m.statusUpdated o)) = .done r) (hbroken : Q ⟨none, s, []⟩)
    (h : Q ⟨some r, s.insert o.key (m.statusUpdated o), [.updateStatus o]⟩) :
    Q (w.carry (.call (.store (.updateStatus o)) next) n s) := by
  have haccepted := Memory.updateStatus_eq o s
  simp only [hm, if_pos hv] at haccepted
  exact carry_last haccepted hlast hbroken h

end Surroundings

end MachineKeeper
