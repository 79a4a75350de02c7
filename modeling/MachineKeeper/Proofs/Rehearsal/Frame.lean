/-
  MachineKeeper.Proofs.Rehearsal.Frame — what a call leaves as it is.

  No call moves the clock: that is for whoever carries a plan out. No call takes back what a
  backend was asked. A call to the store touches nothing but the store, whatever comes before it
  (`Aside`). Changes that are overdue are made to the signals and to nothing else.

  Proved:
  - `perform_now`, `logs_perform`: for every call.
  - `aside_store`: for calls to the store.
  - `catchUp_eq`: what it is to catch up.
-/

import MachineKeeper.Rehearsal.World

namespace MachineKeeper.Rehearsal

open Daemon (SessionCall)

variable {k : Kind} {w w' w'' : World}

/-- Neither time nor signals nor the session nor what was asked have changed. -/
structure Aside (w w' : World) : Prop where
  now : w'.now = w.now
  signals : w'.signals = w.signals
  overdue : w'.overdue = w.overdue
  opening : w'.opening = w.opening
  log : w'.log = w.log

theorem Aside.refl (w : World) : Aside w w := ⟨rfl, rfl, rfl, rfl, rfl⟩

theorem Aside.trans (h : Aside w w') (h' : Aside w' w'') : Aside w w'' where
  now := h'.now.trans h.now
  signals := h'.signals.trans h.signals
  overdue := h'.overdue.trans h.overdue
  opening := h'.opening.trans h.opening
  log := h'.log.trans h.log

theorem aside_storeQuietly (c : StoreCall k) (w : World) : Aside w (w.storeQuietly c).2 := ⟨rfl, rfl, rfl, rfl, rfl⟩

theorem aside_disturb (d : Disturbance) (key : Key) (w : World) : Aside w (w.disturb d key) := by
  unfold World.disturb
  split
  · next m w' hget =>
    have hread : Aside w w' := by
      have := aside_storeQuietly (.get (k := .machine) key) w
      rwa [hget] at this
    cases d with
    | touch => exact hread.trans (aside_storeQuietly _ w')
    | delete => exact hread.trans (aside_storeQuietly _ w')
    | purge => exact (hread.trans (aside_storeQuietly _ w')).trans (aside_storeQuietly _ _)
  · next w' hget =>
    have := aside_storeQuietly (.get (k := .machine) key) w
    rwa [hget] at this

theorem aside_disturbed (c : StoreCall k) (w : World) : Aside w (w.disturbed k c) := by
  unfold World.disturbed
  split
  · split
    · exact .refl w
    · refine Aside.trans ?_ (aside_disturb _ _ _)
      exact ⟨rfl, rfl, rfl, rfl, rfl⟩
  · split
    · exact .refl w
    · refine Aside.trans ?_ (aside_disturb _ _ _)
      exact ⟨rfl, rfl, rfl, rfl, rfl⟩
  · exact .refl w

theorem aside_countUid (c : StoreCall k) (a : c.Answer) (w : World) : Aside w (w.countUid c a) := by
  unfold World.countUid
  split
  · exact ⟨rfl, rfl, rfl, rfl, rfl⟩
  · exact .refl w

theorem aside_store (c : StoreCall k) (w : World) : Aside w (w.store k c).2 :=
  ((aside_disturbed c w).trans (aside_storeQuietly c _)).trans (aside_countUid c _ _)

/-! ## Catching up -/

/-- The signals with what is overdue made to them. -/
def World.caughtUp (w : World) : List Signal :=
  w.overdue.foldl (fun signals c => signals.modify c.1 fun s => s.change w.now c.2) w.signals

theorem catchUp_eq (w : World) : w.catchUp = { w with signals := w.caughtUp, overdue := [] } := by
  have hfold : ∀ (changes : List (Nat × Signal.Change)) (signals : List Signal),
      changes.foldl (fun (w : World) (c : Nat × Signal.Change) => w.change c.1 w.now c.2) { w with signals := signals } =
        { w with signals := changes.foldl (fun signals c => signals.modify c.1 fun s => s.change w.now c.2) signals } := by
    intro changes
    induction changes with
    | nil => exact fun _ => rfl
    | cons c changes ih => exact fun signals => ih _
  have := hfold w.overdue w.signals
  simp only [World.catchUp, World.caughtUp]
  rw [this]

@[simp] theorem catchUp_signals (w : World) : w.catchUp.signals = w.caughtUp := by rw [catchUp_eq]

@[simp] theorem catchUp_now (w : World) : w.catchUp.now = w.now := by rw [catchUp_eq]

@[simp] theorem catchUp_overdue (w : World) : w.catchUp.overdue = [] := by rw [catchUp_eq]

@[simp] theorem catchUp_opening (w : World) : w.catchUp.opening = w.opening := by rw [catchUp_eq]

@[simp] theorem catchUp_log (w : World) : w.catchUp.log = w.log := by rw [catchUp_eq]

theorem caughtUp_of_overdue (h : w.overdue = []) : w.caughtUp = w.signals := by rw [World.caughtUp, h, List.foldl_nil]

theorem Aside.caughtUp (h : Aside w w') : w'.caughtUp = w.caughtUp := by
  simp only [World.caughtUp, h.overdue, h.now, h.signals]

/-! ## Every call -/

theorem session_now (ctx : Context) (c : SessionCall) (w : World) : (w.session ctx c).2.now = w.now := by
  cases c with
  | enter =>
    simp only [World.session]
    split <;> rfl
  | exchange q =>
    simp only [World.session]
    split
    · exact catchUp_now w
    · exact catchUp_now w
  | _ => rfl

theorem perform_now (c : World.Call) (w : World) : (w.perform c).2.now = w.now := by
  cases c with
  | store k c => exact (aside_store c w).now
  | session ctx c => exact session_now ctx c w
  | pause ctx duration =>
    simp only [World.perform]
    split
    · rfl
    · split
      · rfl
      · exact catchUp_now w
  | cancel ctx =>
    simp only [World.perform]
    split <;> rfl
  | _ => rfl

/-- What a call leaves in the log. -/
inductive Logs : World.Call → List LogEntry → Prop
  | nothing (c : World.Call) : Logs c []
  | simulated (ctx : Context) (c : BackendCall) : Logs (.simulated ctx c) [.backend c]
  | exchange (ctx : Context) (q : Daemon.Request) : Logs (.session ctx (.exchange q)) [.daemon q]

theorem logs_perform (c : World.Call) (w : World) : ∃ entries, (w.perform c).2.log = w.log ++ entries ∧ Logs c entries := by
  have hnothing : (w.perform c).2.log = w.log → ∃ entries, (w.perform c).2.log = w.log ++ entries ∧ Logs c entries := by
    intro hlog
    exact ⟨[], by rw [hlog, List.append_nil], .nothing c⟩
  cases c with
  | store k c => exact hnothing (aside_store c w).log
  | simulated ctx c => exact ⟨_, rfl, .simulated ctx c⟩
  | session ctx c =>
    cases c with
    | exchange q =>
      simp only [World.perform, World.session]
      split
      · exact ⟨[], by simp, .nothing _⟩
      · exact ⟨_, by simp [World.record], .exchange ctx q⟩
    | enter =>
      apply hnothing
      simp only [World.perform, World.session]
      split <;> rfl
    | interruption | connected | leave _ | socketPresent | forget => exact hnothing rfl
  | pause ctx duration =>
    apply hnothing
    simp only [World.perform]
    split
    · rfl
    · split
      · rfl
      · exact catchUp_log w
  | cancel ctx =>
    apply hnothing
    simp only [World.perform]
    split <;> rfl
  | clock | wallClock | interruption _ | visit _ _ => exact hnothing rfl

end MachineKeeper.Rehearsal
