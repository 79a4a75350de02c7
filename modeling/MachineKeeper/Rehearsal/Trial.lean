/-
  MachineKeeper.Rehearsal.Trial — contexts tried out step by step.

  One script holds the senders of its signals, derives contexts and waits under them. A sender
  can be handed to the background, which then makes its changes at set times. The background
  acts only while the script waits: what falls due while the script merely lets time pass, or at
  the very instant that wakes it, is made up for as soon as it waits again, and not if what it
  waits for is there already.
-/

import MachineKeeper.Clock.Context

namespace MachineKeeper.Rehearsal

structure Trial where
  now : Instant
  signals : List Signal
  /-- For each signal, whether the script still holds its sender. -/
  held : List Bool
  /-- Changes that fell due while the script did not wait. -/
  overdue : List (Nat × Signal.Change)

namespace Trial

def start : Trial := ⟨0, [], [], []⟩

def holds (t : Trial) (signal : Nat) : Bool := t.held.getD signal false

def openSignal (value : Bool) (t : Trial) : Nat × Trial :=
  (t.signals.length,
    { t with signals := t.signals ++ [.constant value], held := t.held ++ [true] })

def change (signal : Nat) (time : Instant) (c : Signal.Change) (t : Trial) : Trial :=
  { t with signals := t.signals.modify signal fun s => s.change time c }

/-- A change by the script itself; answers whether it still could make it. -/
def changeNow (signal : Nat) (c : Signal.Change) (t : Trial) : Bool × Trial :=
  if t.holds signal then
    let t := t.change signal t.now c
    (true, if c = .drop then { t with held := t.held.set signal false } else t)
  else (false, t)

/--
Hands a sender to the background, with the changes it makes from now on; none follows a drop.
What is due at once is overdue, since nobody has waited yet.
-/
def handOver (signal : Nat) (changes : List (Nat × Signal.Change)) (t : Trial) : Trial :=
  if t.holds signal then
    let made := changes.takeWhile (·.2 ≠ .drop) ++ (changes.dropWhile (·.2 ≠ .drop)).take 1
    let t := made.foldl (fun t c =>
      if c.1 = 0 then { t with overdue := t.overdue ++ [(signal, c.2)] }
      else t.change signal (t.now + c.1) c.2) t
    { t with held := t.held.set signal false }
  else t

/-- The changes of a signal in a stretch of time, and the signal without them. -/
def split (after till : Instant) (s : Signal) : List Signal.Change × Signal :=
  let due (c : Instant × Signal.Change) : Bool := after < c.1 && c.1 ≤ till
  ((s.changes.filter due).map (·.2), { s with changes := s.changes.filter (!due ·) })

/-- Lets time pass without waiting. -/
def pass (duration : Nat) (t : Trial) : Trial :=
  let till := t.now + duration
  let parts := t.signals.map (split t.now till)
  let overdue := (parts.zipIdx.map fun (part, i) => part.1.map fun c => (i, c)).flatten
  { t with now := till, signals := parts.map (·.2), overdue := t.overdue ++ overdue }

/-- Makes up for what is overdue. -/
def catchUp (t : Trial) : Trial :=
  { t.overdue.foldl (fun t (signal, c) => t.change signal t.now c) t with overdue := [] }

/-- Goes on to an instant at which the script is woken before the background acts. -/
def wakeAt (time : Instant) (t : Trial) : Trial := { t with now := time - 1 }.pass 1

/--
Waits for something that is there so long from now, or never, while the background starts on
these changes: how the wait ends, if it does within `patience`.
-/
def wait (ctx : Context) (delay : Option Nat) (patience : Nat)
    (background : Option (Nat × List (Nat × Signal.Change))) (t : Trial) :
    Option (Except Interruption Unit) × Trial :=
  let ready := delay.map (t.now + ·)
  let busy := match background with
    | none => t
    | some (signal, changes) => t.handOver signal changes
  let atOnce := match ctx.await t.signals t.now ready with
    | some (time, result) => if time = t.now then some result else none
    | none => none
  match atOnce with
  | some result => (some result, busy)
  | none =>
    let t := busy.catchUp
    let alarm := (earliest (earliest ready ctx.deadline) (some (t.now + patience))).getD t.now
    let woken := t.wakeAt alarm
    match ctx.await woken.signals t.now ready with
    | some (time, result) =>
      if time < alarm then (some result, { t with now := time })
      else if time = alarm then (some result, woken)
      else (none, woken)
    | none => (none, woken)

end Trial

end MachineKeeper.Rehearsal
