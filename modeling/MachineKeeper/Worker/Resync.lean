/-
  MachineKeeper.Worker.Resync — passes at regular intervals, until told to stop.

  The first pass is due at once and every other one an interval after the one before; a pass
  that is taken more than five milliseconds late moves those behind it. Between passes the
  worker waits for the next one to be due or for a value sent to the shutdown signal, and stops
  when it finds the signal set then. What the signal held at first is not looked at. If both are
  there at once either may be taken first, so the choice is a parameter: `picks` says, turn by
  turn, whether the pass goes first.

  What a pass does is a parameter too: it turns a state into another and takes its time.

  Two things are left out. One is an interval of zero: no timer can be made of it, so the worker
  would crash before its first pass; the settings have none. The other is a sender that is gone:
  the wait for its next value is then over at once, again and again, so that the worker looks at
  the last value, stops if that is set, and otherwise goes on looking until the next pass is due.
  Here it just waits for the pass.
-/

import MachineKeeper.Clock.Signal

namespace MachineKeeper.Resync

/-- How late a pass may be taken and still count as on time. -/
def tolerance : Nat := 5

/-- When the next pass is due, after one that was due at `due` is taken at `now`. -/
def nextDue (interval : Nat) (due now : Instant) : Instant :=
  if due + tolerance < now then now + interval else due + interval

/-- The instants at which the signal is sent a value, in order. -/
def sends (shutdown : Signal) : List Instant :=
  (shutdown.changes.filter fun c => c.2 ≠ .drop).map (·.1)

/-- When the first value is sent after so many that have been seen. -/
def nextSend? (shutdown : Signal) (seen : Nat) : Option Instant := (sends shutdown)[seen]?

/-- How many values have been sent by then. -/
def sentBy (shutdown : Signal) (t : Instant) : Nat := (sends shutdown).countP (· ≤ t)

/-- What the worker does next, and when. -/
inductive Turn where
  | pass (time : Instant)
  | look (time : Instant)
  deriving DecidableEq

/-- The turn that comes at `now` or later, for a pass due at `due`. -/
def turn (shutdown : Signal) (seen : Nat) (due now : Instant) (passFirst : Bool) : Turn :=
  match nextSend? shutdown seen with
  | none => .pass (max now due)
  | some send =>
    let passAt := max now due
    let lookAt := max now send
    if passAt < lookAt then .pass passAt
    else if lookAt < passAt then .look lookAt
    else if passFirst then .pass passAt else .look lookAt

/-- How a run ends. -/
inductive End (σ : Type) where
  | stopped (s : σ) (time : Instant)
  /-- Past the limit, or in a pass that never ends. -/
  | stuck (s : σ)
  /-- Out of fuel. -/
  | unfinished (s : σ)

/--
Runs from `now`, with a pass due at `due` and the first `seen` values of the signal known. The
signal is part of the state. A pass answers with the state it leaves and the instant it ends, if
it ends; nothing is done from `limit` on.
-/
def run {σ : Type} (interval limit : Nat) (shutdown : σ → Signal)
    (pass : Instant → σ → Option Instant × σ) (picks : Nat → Bool) :
    Nat → Nat → Instant → Instant → σ → End σ
  | 0, _, _, _, s => .unfinished s
  | fuel + 1, seen, due, now, s =>
    match turn (shutdown s) seen due now (picks fuel) with
    | .pass t =>
      if limit ≤ t then .stuck s
      else match pass t s with
        | (none, s) => .stuck s
        | (some ended, s) =>
          run interval limit shutdown pass picks fuel seen (nextDue interval due t) ended s
    | .look t =>
      if limit ≤ t then .stuck s
      else if (shutdown s).valueAt t then .stopped s t
      else run interval limit shutdown pass picks fuel (sentBy (shutdown s) t) due t s

end MachineKeeper.Resync
