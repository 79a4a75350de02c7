/-
  MachineKeeper.Rehearsal.Together — carrying out several plans at the same time.

  Each plan acts until it has to wait; those that can act take turns, first come, first served.
  When all wait, the clock jumps to the next instant at which one of them wakes, and all that
  wake at that instant get their turn, in the order in which they began to wait. Whoever waits
  for the right to open the session gets it as soon as it is free, again first come, first
  served.

  Plans that are not done before the limit are abandoned there. Turns are counted by fuel: with
  enough of it the outcome is that of the plans themselves.
-/

import MachineKeeper.Rehearsal.Solo

namespace MachineKeeper.Rehearsal

/-- A plan that has to wait. -/
structure Sleeper (α : Type) where
  ctx : Context
  ready : Option Instant
  next : Except Interruption Unit → Act α

/-- A plan that can act. -/
inductive Actor (α : Type) where
  | acting (p : Act α)
  /-- Woken, and not yet told why. -/
  | woken (s : Sleeper α)

/-- How far a plan gets by itself. -/
inductive Progress (α : Type) where
  | finished (a : α)
  | asleep (s : Sleeper α)
  | queued (p : Act α)

def advance {α : Type} : Act α → World → Progress α × World
  | .done a, w => (.finished a, w)
  | .call c next, w =>
    match w.perform c with
    | (.atOnce a, w) => advance (next a) w
    | (.waiting ctx ready answer, w) => (.asleep ⟨ctx, ready, fun r => next (answer r)⟩, w)
    | (.queued a, w) => (.queued (next a), w)

namespace Sleeper

variable {α : Type}

def wakes (s : Sleeper α) (w : World) : Option Instant := s.ctx.wakes w.signals w.now s.ready

/-- Takes a turn: goes on with the answer, or sleeps on. -/
def turn (s : Sleeper α) (w : World) : Progress α × World :=
  match w.interruption s.ctx with
  | some why => advance (s.next (.error why)) w
  | none =>
    if s.ready.any (· ≤ w.now) then advance (s.next (.ok ())) w else (.asleep s, w)

end Sleeper

/-- All plans under way, each where it stands, and the results of those that have ended. -/
structure Stage (α : Type) where
  actors : List (Actor α)
  sleepers : List (Sleeper α)
  queue : List (Act α)
  results : List α

namespace Stage

variable {α : Type}

def of (plans : List (Act α)) : Stage α := ⟨plans.map .acting, [], [], []⟩

/-- Puts a plan where its progress has left it. -/
def settle (s : Stage α) : Progress α → Stage α
  | .finished a => { s with results := s.results ++ [a] }
  | .asleep sleeper => { s with sleepers := s.sleepers ++ [sleeper] }
  | .queued p => { s with queue := s.queue ++ [p] }

/-- Hands the right to open the session to the next in the queue, if it is free. -/
def callNext (s : Stage α) (w : World) : Stage α × World :=
  if w.opening then (s, w)
  else match s.queue with
    | [] => (s, w)
    | p :: rest =>
      ({ s with actors := s.actors ++ [.acting p], queue := rest }, { w with opening := true })

/-- The next instant at which a sleeper wakes. -/
def nextWake (s : Stage α) (w : World) : Option Instant :=
  s.sleepers.foldl (fun t sleeper => earliest t (sleeper.wakes w)) none

/-- Wakes all that wake by now. -/
def wake (s : Stage α) (w : World) : Stage α :=
  let due (sleeper : Sleeper α) : Bool := (sleeper.wakes w).any (· ≤ w.now)
  { s with
    actors := s.actors ++ (s.sleepers.filter due).map .woken
    sleepers := s.sleepers.filter (!due ·) }

def run (limit : Instant) : Nat → Stage α → World → Option (List α) × World
  | 0, _, w => (none, w.abandon limit)
  | fuel + 1, s, w =>
    match s.actors with
    | actor :: rest =>
      let (progress, w) := match actor with
        | .acting p => advance p w
        | .woken sleeper => sleeper.turn w
      let (s, w) := ({ s with actors := rest }.settle progress).callNext w
      run limit fuel s w
    | [] =>
      match s.nextWake w with
      | some t =>
        if t < limit then
          let w := { w with now := t }
          run limit fuel (s.wake w) w
        else (none, w.abandon limit)
      | none =>
        if s.sleepers.isEmpty && s.queue.isEmpty then (some s.results, w)
        else (none, w.abandon limit)

end Stage

end MachineKeeper.Rehearsal
