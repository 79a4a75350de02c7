/-
  MachineKeeper.Clock.Context — how long an operation may take.

  A context names a cancel signal, a deadline, both or neither. It is done once the signal is
  set, or once the deadline is reached; a cancellation is reported first. A child context shares
  the signal of its parent and keeps the earlier of two deadlines.

  Waiting under a context ends with the first of three instants: the signal is set, the deadline
  is reached, or what is waited for is there. At one and the same instant the context wins over
  what is waited for, and the deadline over a signal that is set only then.

  Instants have an end: `Deadline.after?` has no answer when the sum is beyond it.
-/

import MachineKeeper.Clock.Signal

namespace MachineKeeper

inductive Interruption where
  | cancelled
  | deadlineExceeded
  deriving DecidableEq

def Interruption.message : Interruption → String
  | .cancelled => "operation cancelled"
  | .deadlineExceeded => "deadline exceeded"

/-- The last instant: a signed 64-bit count of seconds, and all milliseconds of the last one. -/
def lastInstant : Instant := 9223372036854775807 * 1000 + 999

def Deadline.after? (now : Instant) (timeout : Nat) : Option Instant :=
  if now + timeout ≤ lastInstant then some (now + timeout) else none

structure Context where
  /-- Which of the signals in use cancels it. -/
  signal : Option Nat
  deadline : Option Instant
  deriving DecidableEq

/-- The lesser of two instants of which each may never come. -/
def earliest : Option Instant → Option Instant → Option Instant
  | none, b => b
  | a, none => a
  | some a, some b => some (min a b)

namespace Context

/-- Never cancelled, never expired. -/
def background : Context := ⟨none, none⟩

def withCancel (signal : Nat) : Context := ⟨some signal, none⟩

/-- The child that also expires at the given instant. -/
def expiringAt (c : Context) (deadline : Instant) : Context :=
  { c with deadline := earliest c.deadline (some deadline) }

def withTimeout? (c : Context) (now : Instant) (timeout : Nat) : Option Context :=
  (Deadline.after? now timeout).map c.expiringAt

variable (signals : List Signal)

def signalOf (c : Context) : Option Signal := c.signal.bind fun i => signals[i]?

/-- Why the context is done at that instant, if it is. -/
def interruption (c : Context) (now : Instant) : Option Interruption :=
  if ((c.signalOf signals).any fun s => s.valueAt now) then some .cancelled
  else if c.deadline.any (· ≤ now) then some .deadlineExceeded
  else none

/-- The first instant, `now` or later, at which the context is done. -/
def doneFrom (c : Context) (now : Instant) : Option Instant :=
  if (c.interruption signals now).isSome then some now
  else earliest ((c.signalOf signals).bind fun s => s.setAfter? now) c.deadline

/-- When a wait ends that is under way at `now`, for something that is there from `ready` on. -/
def wakes (c : Context) (now : Instant) (ready : Option Instant) : Option Instant :=
  earliest (c.doneFrom signals now) (ready.map (max now))

/--
A wait that starts at `now` for something that is there from `ready` on: the instant it ends,
and how. There is none where it never ends. Its own deadline wakes it before anyone else acts.
-/
def await (c : Context) (now : Instant) (ready : Option Instant) :
    Option (Instant × Except Interruption Unit) :=
  match c.interruption signals now with
  | some why => some (now, .error why)
  | none =>
    let cancel := (c.signalOf signals).bind fun s => s.setAfter? now
    (earliest (earliest cancel c.deadline) (ready.map (max now))).map fun t =>
      (t,
        if c.deadline.any (· ≤ t) then .error .deadlineExceeded
        else if cancel.any (· ≤ t) then .error .cancelled
        else .ok ())

end Context

end MachineKeeper
