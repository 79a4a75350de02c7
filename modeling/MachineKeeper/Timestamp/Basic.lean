/-
  MachineKeeper.Timestamp.Basic — instants of the wall clock, as the calendar shows them.

  A timestamp is a date and a time of day in UTC with nanoseconds. Second 60 stands for a leap
  second, in any minute. A date lies in the years -262143 to 262142; the first and the last day
  have no neighbour on the far side, so moving an instant by an offset can fail there.

  Timestamps are never ordered or subtracted by the keeper, only compared for equality, so the
  calendar form is kept as it is and no count of seconds is taken.
-/

namespace MachineKeeper

def isLeapYear (year : Int) : Bool := year % 4 == 0 && (year % 100 != 0 || year % 400 == 0)

def daysInMonth (year : Int) (month : Nat) : Nat :=
  if month == 2 then (if isLeapYear year then 29 else 28)
  else if month == 4 || month == 6 || month == 9 || month == 11 then 30
  else 31

namespace Date

def minYear : Int := -262143

def maxYear : Int := 262142

/-- A day that the calendar has, in a year that a date may have. -/
def Valid (year : Int) (month day : Nat) : Prop :=
  (minYear ≤ year ∧ year ≤ maxYear) ∧ (1 ≤ month ∧ month ≤ 12) ∧
    (1 ≤ day ∧ day ≤ daysInMonth year month)

instance (year : Int) (month day : Nat) : Decidable (Valid year month day) := by
  unfold Valid; infer_instance

end Date

structure Date where
  year : Int
  month : Nat
  day : Nat
  valid : Date.Valid year month day
  deriving DecidableEq

namespace Date

def of? (year : Int) (month day : Nat) : Option Date :=
  if h : Valid year month day then some ⟨year, month, day, h⟩ else none

def next? (d : Date) : Option Date :=
  if d.day < daysInMonth d.year d.month then of? d.year d.month (d.day + 1)
  else if d.month < 12 then of? d.year (d.month + 1) 1
  else of? (d.year + 1) 1 1

def prev? (d : Date) : Option Date :=
  if 1 < d.day then of? d.year d.month (d.day - 1)
  else if 1 < d.month then of? d.year (d.month - 1) (daysInMonth d.year (d.month - 1))
  else of? (d.year - 1) 12 31

/-- The date `days` after `d`, for a shift of at most one day either way. -/
def shift? (d : Date) (days : Int) : Option Date :=
  if days = 0 then some d else if days < 0 then d.prev? else d.next?

end Date

namespace Timestamp

def ValidTime (hour minute second nano : Nat) : Prop :=
  hour < 24 ∧ minute < 60 ∧ second ≤ 60 ∧ nano < 1000000000

instance (hour minute second nano : Nat) : Decidable (ValidTime hour minute second nano) := by
  unfold ValidTime; infer_instance

end Timestamp

structure Timestamp where
  date : Date
  hour : Nat
  minute : Nat
  second : Nat
  nano : Nat
  validTime : Timestamp.ValidTime hour minute second nano
  deriving DecidableEq

end MachineKeeper
