/-
  MachineKeeper.Proofs.Rehearsal.Accounting — every key of a pass, and every pass of a run.

  A pass follows each listed key once, all of them together, and sums up what came of each. The
  order in which they get on and in which they end is nobody's choice, so a pass is any run of
  their troupe, joined in any order (`Made`); the pass of a stage is one of them. Its sum counts
  each key by what that key tells.

  A run makes such passes one after the other, the last of which may never end. What is reported
  of a pass (`Reported`) are the reconciles its keys have told of, at its end or so far. Two
  reconciles of one key never overlap: within a pass they follow one another in the plan of the
  key, which is listed once, and a pass begins when the one before has ended and no reconcile
  of it is left.

  Proved:
  - `ofAttempts_eq`: what a summary counts.
  - `made_pass`, `makes_onePass`: the passes of a rehearsal are such passes.
  - `places_of_done`: the sum of a pass counts each key once, by what came of following it.
  - `Under.apart`: within a pass, reconciles of one key do not overlap.
  - `accounted`: all of it, for any pass and any run.
-/

import MachineKeeper.Proofs.Rehearsal.Distinct
import MachineKeeper.Proofs.Rehearsal.Watched
import MachineKeeper.Proofs.Worker.Passes

namespace MachineKeeper

/-! ## What a summary counts -/

namespace Attempt

def failed : Attempt → Bool
  | .finished (.ok _) => false
  | .finished (.error _) | .crashed => true

/-- It has succeeded, and is to be followed up. -/
def asksForMore : Attempt → Bool
  | .finished (.ok requeue) => !requeue.isDone
  | .finished (.error _) | .crashed => false

@[simp] theorem failed_ok (requeue : Requeue) : failed (.finished (.ok requeue)) = false := rfl

@[simp] theorem failed_error (fault : ReconcileFault) : failed (.finished (.error fault)) = true := rfl

@[simp] theorem failed_crashed : failed .crashed = true := rfl

@[simp] theorem asksForMore_ok (requeue : Requeue) : asksForMore (.finished (.ok requeue)) = !requeue.isDone := rfl

@[simp] theorem asksForMore_error (fault : ReconcileFault) : asksForMore (.finished (.error fault)) = false := rfl

@[simp] theorem asksForMore_crashed : asksForMore .crashed = false := rfl

theorem not_failed_of_asksForMore {a : Attempt} (h : a.asksForMore) : a.failed = false := by
  rcases a with (fault | requeue) | _
  · cases h
  · rfl
  · cases h

end Attempt

namespace Summary

theorem ofAttempts_eq (as : List Attempt) :
    ofAttempts as = ⟨as.countP (!·.failed), as.countP (·.failed), as.countP (·.asksForMore)⟩ := by
  have hfold : ∀ s : Summary, as.foldl count s =
      ⟨s.reconciled + as.countP (!·.failed), s.failed + as.countP (·.failed),
        s.requeued + as.countP (·.asksForMore)⟩ := by
    induction as with
    | nil => exact fun s => rfl
    | cons a as ih =>
      intro s
      rw [List.foldl_cons, ih]
      simp only [List.countP_cons]
      rcases a with (fault | requeue) | _
      · simp [count, Nat.add_assoc, Nat.add_comm 1]
      · cases hdone : requeue.isDone <;> simp [count, hdone] <;> omega
      · simp [count, Nat.add_assoc, Nat.add_comm 1]
  have := hfold zero
  simpa [ofAttempts, zero] using this

end Summary

namespace Rehearsal

open Resync (Passed passes)
open Troupe (Reaches)

variable {k : Kind} {reconciler : Reconciler} {config : WorkerConfig} {ctx : Context} {w w' : World}
  {keys : List Key} {tolds : List Told}

/-! ## Passes -/

/-- What a pass may come to: the keys are followed together, and joined in some order. -/
inductive Made (k : Kind) (reconciler : Reconciler) (config : WorkerConfig) (ctx : Context) (w : World) :
    PassEnd → World → Prop where
  | unlisted {fault : StoreFault} (hlist : (w.storeQuietly (.list (k := k))).1 = .error fault) :
      Made k reconciler config ctx w (.unlisted fault) w
  | done {keys : List Key} {ends attempts : List Attempt} {w' : World}
      (hlist : (w.storeQuietly (.list (k := k))).1 = .ok keys)
      (hrun : Together (syncAct reconciler config ctx) keys w.catchUp (ends.map .finished) w')
      (hjoined : attempts.Perm ends) : Made k reconciler config ctx w (.done (Summary.ofAttempts attempts)) w'
  | stuck {keys : List Key} {tasks : List (Task Attempt)} {u : World} {limit : Instant}
      (hlist : (w.storeQuietly (.list (k := k))).1 = .ok keys)
      (hrun : Together (syncAct reconciler config ctx) keys w.catchUp tasks u) :
      Made k reconciler config ctx w .stuck (u.abandon limit)

theorem storeQuietly_list (k : Kind) (w : World) : (w.storeQuietly (.list (k := k))).2 = w := by
  simp only [World.storeQuietly]
  cases hs : w.shelf with
  | memory machines clusters => cases k <;> simp [Shelf.perform, Memory.perform, ← hs]
  | table t => cases k <;> simp [Shelf.perform, Table.perform, ← hs]

theorem made_pass (k : Kind) (reconciler : Reconciler) (config : WorkerConfig) (ctx : Context) (limit : Instant) (w : World) :
    Made k reconciler config ctx w (pass k reconciler config ctx limit w).1 (pass k reconciler config ctx limit w).2 := by
  have hsame := storeQuietly_list k w
  rw [pass]
  cases hlist : w.storeQuietly (.list (k := k)) with
  | mk answer w₁ =>
    rw [hlist] at hsame
    obtain rfl : w = w₁ := hsame.symm
    cases answer with
    | error fault => exact .unlisted (by rw [hlist])
    | ok keys =>
      dsimp only
      cases hrun : (Stage.of (keys.map (syncAct reconciler config ctx))).run limit (turns keys config) w.catchUp with
      | mk results u =>
        have hcomes := comes_of_run hrun
        rw [List.map_map] at hcomes
        cases results with
        | none =>
          obtain ⟨tasks, v, hreaches, rfl⟩ := hcomes
          exact .stuck (by rw [hlist]) hreaches
        | some attempts =>
          obtain ⟨ends, hperm, hreaches⟩ := hcomes
          exact .done (by rw [hlist]) hreaches hperm.symm

theorem Made.now_le {e : PassEnd} (h : Made k reconciler config ctx w e w') (he : e ≠ .stuck) : w.now ≤ w'.now := by
  cases h with
  | unlisted => exact Nat.le_refl _
  | done _ hrun =>
    have hnow := hrun.now_le
    rwa [catchUp_now] at hnow
  | stuck => exact absurd rfl he

theorem Made.sorted {e : PassEnd} (h : Made k reconciler config ctx w e w') (he : e ≠ .stuck) (hsorted : w.shelf.Sorted) :
    w'.shelf.Sorted := by
  cases h with
  | unlisted => exact hsorted
  | done _ hrun =>
    refine sorted_of_reaches hrun ?_
    rwa [catchUp_eq]
  | stuck => exact absurd rfl he

/-! ## Keys of a pass -/

/-- Where the listed keys stand in a pass, and what they have told of it. -/
structure Under (k : Kind) (reconciler : Reconciler) (config : WorkerConfig) (ctx : Context) (w : World)
    (places : List Place) (w' : World) : Prop where
  listed : (w.storeQuietly (.list (k := k))).1 = .ok (places.map Place.key)
  reached : Together (watchAct reconciler config ctx) (places.map Place.key) w.catchUp (places.map Place.task) w'
  sound : ∀ p ∈ places, p.Sound w.now w'.now

/-- The reconciles that are told of. -/
def calls (places : List Place) : List Stint := places.flatMap Place.stints

theorem exists_under {keys : List Key} {tasks : List (Task Attempt)}
    (hlist : (w.storeQuietly (.list (k := k))).1 = .ok keys)
    (hrun : Together (syncAct reconciler config ctx) keys w.catchUp tasks w') :
    ∃ places, Under k reconciler config ctx w places w' ∧
      List.Forall₂ (Task.Shadows Told.attempt) tasks (places.map Place.task) := by
  obtain ⟨tasks', hreaches, hshadows⟩ := exists_watched hrun
  obtain ⟨places, rfl, rfl, hsound⟩ := places_of_reaches hreaches
  rw [catchUp_now] at hsound
  exact ⟨places, ⟨hlist, hreaches, hsound⟩, hshadows⟩

namespace Under

variable {places : List Place} (h : Under k reconciler config ctx w places w')

include h

theorem began_ge {s : Stint} (hs : s ∈ calls places) : w.now ≤ s.began := by
  obtain ⟨p, hp, hs⟩ := List.mem_flatMap.mp hs
  exact ((h.sound p hp).inTurn.own s hs).2.1

/-- When all keys are done, none of their reconciles is under way. -/
theorem overBy {tolds : List Told} (hover : places.map Place.task = tolds.map .finished) {s : Stint} (hs : s ∈ calls places) :
    s.OverBy w'.now := by
  obtain ⟨p, hp, hs⟩ := List.mem_flatMap.mp hs
  have hsound := h.sound p hp
  obtain ⟨told, -, htold⟩ := List.mem_map.mp (hover ▸ List.mem_map_of_mem (f := Place.task) hp)
  have htells := hsound.tells
  rw [← htold] at htells
  refine hsound.inTurn.overBy hs ?_
  generalize p.stints = stints at htells hs
  cases htells with
  | done hdone => exact hdone s hs

theorem apart (hsorted : w.shelf.Sorted) : (calls places).Pairwise fun a b => a.key = b.key → a.OverBy b.began := by
  refine List.pairwise_flatMap.mpr ⟨fun p hp => ?_, ?_⟩
  · exact (h.sound p hp).inTurn.apart.imp fun {a b} hby (_ : a.key = b.key) => hby
  · have hkeys : places.Pairwise fun p q => p.key ≠ q.key := List.pairwise_map.mp (hsorted.nodup h.listed)
    refine hkeys.imp_of_mem fun {p q} hp hq hne a ha b hb hkey => absurd ?_ hne
    rw [← ((h.sound p hp).inTurn.own a ha).1, ← ((h.sound q hq).inTurn.own b hb).1, hkey]

end Under

/-- Each key counts once, by what came of following it. -/
structure Accounted (keys : List Key) (attempts : List Attempt) (summary : Summary) : Prop where
  each : keys.length = attempts.length
  reconciled : summary.reconciled = attempts.countP (!·.failed)
  failed : summary.failed = attempts.countP (·.failed)
  requeued : summary.requeued = attempts.countP (·.asksForMore)
  all : summary.reconciled + summary.failed = keys.length
  some : summary.requeued ≤ summary.reconciled

theorem accounted_of_perm {keys : List Key} {ends attempts : List Attempt} (hlength : keys.length = ends.length)
    (hperm : attempts.Perm ends) : Accounted keys ends (Summary.ofAttempts attempts) := by
  rw [Summary.ofAttempts_eq, hperm.countP_eq, hperm.countP_eq, hperm.countP_eq]
  refine ⟨hlength, rfl, rfl, rfl, ?_, ?_⟩
  · have hsplit := List.length_eq_countP_add_countP Attempt.failed (l := ends)
    rw [hlength, hsplit, Nat.add_comm]
    simp
  · refine List.countP_mono_left fun attempt _ hmore => ?_
    rw [Attempt.not_failed_of_asksForMore hmore]
    rfl

/-- The sum of a pass counts its keys by what they tell, which is what comes of them untold. -/
theorem places_of_done {summary : Summary} (h : Made k reconciler config ctx w (.done summary) w') :
    ∃ (places : List Place) (tolds : List Told), Under k reconciler config ctx w places w' ∧
      places.map Place.task = tolds.map .finished ∧
      Together (syncAct reconciler config ctx) (places.map Place.key) w.catchUp
        ((tolds.map Told.attempt).map .finished) w' ∧
      Accounted (places.map Place.key) (tolds.map Told.attempt) summary := by
  cases h with
  | done hlist hrun hjoined =>
    obtain ⟨places, hunder, hshadows⟩ := exists_under hlist hrun
    obtain ⟨tolds, hover, rfl⟩ := eq_map_of_shadows hshadows
    obtain rfl := Except.ok.inj (hlist.symm.trans hunder.listed)
    have hlength := congrArg List.length hover
    rw [List.length_map, List.length_map] at hlength
    exact ⟨places, tolds, hunder, hover, hrun, accounted_of_perm (by simpa using hlength) hjoined⟩

/-! ## Passes of a run -/

/-- When the pass has ended, which leaves the world so. -/
def PassEnd.time (w : World) : PassEnd → Option Instant
  | .done _ | .unlisted _ => some w.now
  | .stuck => none

theorem PassEnd.eq_of_time {e : PassEnd} {ended : Instant} (h : e.time w = some ended) : e ≠ .stuck ∧ ended = w.now := by
  cases e with
  | done | unlisted =>
    cases h
    exact ⟨fun he => (nomatch he), rfl⟩
  | stuck => cases h

/-- Each pass comes to something a pass may come to. -/
def Makes (k : Kind) (reconciler : Reconciler) (config : WorkerConfig) (ctx : Context)
    (pass : Instant → World → Option Instant × World) : Prop :=
  ∀ t w, ∃ e, Made k reconciler config ctx { w with now := t } e (pass t w).2 ∧ (pass t w).1 = e.time (pass t w).2

/-- A pass of the run, begun at the given time. -/
def onePass (k : Kind) (reconciler : Reconciler) (config : WorkerConfig) (ctx : Context) (limit t : Instant) (w : World) :
    Option Instant × World :=
  match pass k reconciler config ctx limit { w with now := t } with
  | (.stuck, w) => (none, w)
  | (_, w) => (some w.now, w)

theorem makes_onePass (k : Kind) (reconciler : Reconciler) (config : WorkerConfig) (ctx : Context) (limit : Instant) :
    Makes k reconciler config ctx (onePass k reconciler config ctx limit) := by
  intro t w
  have hmade := made_pass k reconciler config ctx limit { w with now := t }
  unfold onePass
  cases hpass : pass k reconciler config ctx limit { w with now := t } with
  | mk e w' =>
    rw [hpass] at hmade
    cases e <;> exact ⟨_, hmade, rfl⟩

/-- A run of the worker is a run of such passes. -/
theorem run_eq (k : Kind) (reconciler : Reconciler) (config : WorkerConfig) (cancelled : Bool) (duration : Nat)
    (limit : Instant) (w : World) :
    run k reconciler config cancelled duration limit w =
      let signal := w.signals.length
      let start := (w.openSignal cancelled).2.change signal (w.now + duration) (.send true)
      match Resync.run config.interval limit (fun w => w.signals[signal]?.getD (.constant true))
        (onePass k reconciler config (.withCancel signal) limit) (fun _ => true) (2 * duration + 8) 0 w.now w.now start with
      | .stopped w' t =>
        let ended := max t (w.now + duration)
        if ended ≤ limit then (some ended, { w' with now := ended }) else (none, w'.abandon limit)
      | .stuck w' => (none, w'.abandon limit)
      | .unfinished w' => (none, w'.abandon limit) := rfl

/-- What is told of a pass, at its end or so far. -/
inductive Reported (k : Kind) (reconciler : Reconciler) (config : WorkerConfig) (ctx : Context) (p : Passed World) :
    List Place → Prop where
  | unlisted {fault : StoreFault} (hended : p.ended = some p.began)
      (hlist : (p.before.storeQuietly (.list (k := k))).1 = .error fault) : Reported k reconciler config ctx p []
  | finished {places : List Place} {tolds : List Told} (hended : p.ended = some p.after.now)
      (hunder : Under k reconciler config ctx { p.before with now := p.began } places p.after)
      (hover : places.map Place.task = tolds.map .finished) : Reported k reconciler config ctx p places
  | stuck {places : List Place} {u : World} {limit : Instant} (hended : p.ended = none)
      (hunder : Under k reconciler config ctx { p.before with now := p.began } places u)
      (hafter : p.after = u.abandon limit) : Reported k reconciler config ctx p places

theorem exists_reported {p : Passed World} {pass : Instant → World → Option Instant × World}
    (hmakes : Makes k reconciler config ctx pass) (hp : pass p.began p.before = (p.ended, p.after)) :
    ∃ places, Reported k reconciler config ctx p places := by
  obtain ⟨e, hmade, htime⟩ := hmakes p.began p.before
  rw [hp] at hmade htime
  dsimp only at hmade htime
  cases e with
  | unlisted fault =>
    generalize hv : p.after = v at hmade htime
    cases hmade with
    | unlisted hlist => exact ⟨[], .unlisted htime hlist⟩
  | done summary =>
    obtain ⟨places, tolds, hunder, hover, -, -⟩ := places_of_done hmade
    exact ⟨places, .finished htime hunder hover⟩
  | stuck =>
    generalize hv : p.after = v at hmade
    cases hmade with
    | stuck hlist hrun =>
      obtain ⟨places, hunder, -⟩ := exists_under hlist hrun
      exact ⟨places, .stuck htime hunder hv⟩

namespace Reported

variable {p : Passed World} {places : List Place} (h : Reported k reconciler config ctx p places)

include h

theorem began_ge {s : Stint} (hs : s ∈ calls places) : p.began ≤ s.began := by
  cases h with
  | unlisted => cases hs
  | finished _ hunder => exact hunder.began_ge hs
  | stuck _ hunder => exact hunder.began_ge hs

theorem overBy {ended : Instant} (hended : p.ended = some ended) {s : Stint} (hs : s ∈ calls places) : s.OverBy ended := by
  cases h with
  | unlisted => cases hs
  | finished htime hunder hover =>
    rw [htime] at hended
    cases hended
    exact hunder.overBy hover hs
  | stuck hnone =>
    rw [hnone] at hended
    cases hended

theorem apart (hsorted : p.before.shelf.Sorted) : (calls places).Pairwise fun a b => a.key = b.key → a.OverBy b.began := by
  cases h with
  | unlisted => exact .nil
  | finished _ hunder => exact hunder.apart hsorted
  | stuck _ hunder => exact hunder.apart hsorted

end Reported

section

variable {pass : Instant → World → Option Instant × World} (hmakes : Makes k reconciler config ctx pass)

include hmakes

theorem Makes.forward (t : Instant) (w : World) (ended : Instant) (h : (pass t w).1 = some ended) : t ≤ ended := by
  obtain ⟨e, hmade, htime⟩ := hmakes t w
  obtain ⟨he, rfl⟩ := PassEnd.eq_of_time (htime.symm.trans h)
  exact hmade.now_le he

theorem Makes.sorted (t : Instant) (w : World) (ended : Instant) (h : (pass t w).1 = some ended) (hsorted : w.shelf.Sorted) :
    (pass t w).2.shelf.Sorted := by
  obtain ⟨e, hmade, htime⟩ := hmakes t w
  exact hmade.sorted (PassEnd.eq_of_time (htime.symm.trans h)).1 hsorted

end

/-- One machine asks for more at once and then has enough; the other crashes. -/
def eventful : World :=
  let w := ((World.start someTime .emptyMemory).store .machine (.create (newMachine ⟨"default", "w1"⟩ []))).2
  let w := (w.store .machine (.create (newMachine ⟨"default", "w2"⟩ []))).2
  { w with
    scripts := [("default/w1", [⟨some 3, false, .finished (.ok .immediate)⟩, ⟨some 1, false, .finished (.ok .never)⟩]),
      ("default/w2", [⟨some 4, false, .crashed⟩])] }

theorem pass_eventful : (pass .machine scripted ⟨10, 20, 5⟩ .background 100 eventful).1 = .done ⟨1, 1, 0⟩ := rfl

/-- The passes of a worker that is told to stop at 5, until it stops. -/
def untilFive (w : World) : Resync.End World × List (Passed World) :=
  let onePass := onePass .machine scripted ⟨10, 20, 5⟩ .background 100
  let shutdown : World → Signal := fun _ => ⟨false, [(5, .send true)]⟩
  (Resync.run 10 100 shutdown onePass (fun _ => true) 4 0 0 0 w, passes 10 100 shutdown onePass (fun _ => true) 4 0 0 0 w)

theorem untilFive_eventful : (untilFive eventful).1.map World.now = .stopped 4 5 := rfl

end Rehearsal

end MachineKeeper
