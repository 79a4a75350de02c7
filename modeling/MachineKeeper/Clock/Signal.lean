/-
  MachineKeeper.Clock.Signal — a cancel signal over time.

  Time is counted in milliseconds from some start. A signal holds a value from the beginning and
  takes others at the instants they are sent; the value at an instant is the last one sent by
  then. Once its sender is dropped nothing more is sent, and the last value stays.
-/

namespace MachineKeeper

abbrev Instant := Nat

inductive Signal.Change where
  | send (value : Bool)
  | drop
  deriving DecidableEq

structure Signal where
  first : Bool
  /-- What becomes of it, in the order of time. -/
  changes : List (Instant × Signal.Change)

namespace Signal

def constant (value : Bool) : Signal := ⟨value, []⟩

def Change.apply (value : Bool) : Change → Bool
  | .send v => v
  | .drop => value

def valueAt (s : Signal) (t : Instant) : Bool :=
  (s.changes.filter (·.1 ≤ t)).foldl (fun v c => c.2.apply v) s.first

/-- Whether the sender is still there. -/
def openAt (s : Signal) (t : Instant) : Bool :=
  s.changes.all fun c => c.2 ≠ .drop || t < c.1

/-- Puts a change behind all that come no later. -/
def place (t : Instant) (c : Change) : List (Instant × Change) → List (Instant × Change)
  | [] => [(t, c)]
  | (t', c') :: rest => if t < t' then (t, c) :: (t', c') :: rest else (t', c') :: place t c rest

def change (s : Signal) (t : Instant) (c : Change) : Signal :=
  { s with changes := place t c s.changes }

/-- The first instant after `t` at which the signal turns out to be set. -/
def setAfter? (s : Signal) (t : Instant) : Option Instant :=
  (s.changes.find? fun c => t < c.1 ∧ s.valueAt c.1).map (·.1)

end Signal

end MachineKeeper
