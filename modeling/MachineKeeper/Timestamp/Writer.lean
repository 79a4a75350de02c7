/-
  MachineKeeper.Timestamp.Writer — the text of a timestamp: `2024-01-31T09:05:00.250Z`.

  A year outside 0 to 9999 has a sign and at least four digits. The fraction has the fewest of
  0, 3, 6 or 9 digits that lose nothing.
-/

import MachineKeeper.Text.Decimal
import MachineKeeper.Timestamp.Basic

namespace MachineKeeper.Timestamp

open Text (padded)

def yearText (year : Int) : List Char :=
  if 0 ≤ year ∧ year ≤ 9999 then padded 4 year.natAbs
  else (if year < 0 then '-' else '+') :: padded 4 year.natAbs

def fractionText (nano : Nat) : List Char :=
  if nano = 0 then []
  else if nano % 1000000 = 0 then '.' :: padded 3 (nano / 1000000)
  else if nano % 1000 = 0 then '.' :: padded 6 (nano / 1000)
  else '.' :: padded 9 nano

def write (t : Timestamp) : List Char :=
  yearText t.date.year ++ '-' :: padded 2 t.date.month ++ '-' :: padded 2 t.date.day ++
    'T' :: padded 2 t.hour ++ ':' :: padded 2 t.minute ++ ':' :: padded 2 t.second ++
    fractionText t.nano ++ ['Z']

def text (t : Timestamp) : String := String.ofList t.write

end MachineKeeper.Timestamp
