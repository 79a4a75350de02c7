/-
  MachineKeeper.Timestamp.Reader — reading the text of a timestamp.

  The date comes first, then one of `T`, `t` or a space, the time of day with an optional
  fraction, and an offset from UTC: `Z`, `UTC` in any case, or a sign with hours and minutes.
  Numbers need no padding, and blanks may stand around them and before the offset. Fields are
  read and checked from left to right, so the leftmost fault is the one reported; whether the
  month has that day, and whether the offset leads out of the calendar, is only known at the
  end. The fraction is cut after nine digits.
-/

import MachineKeeper.Text.Blank
import MachineKeeper.Text.Decimal
import MachineKeeper.Timestamp.Basic

namespace MachineKeeper.Timestamp

open Text (trimStart)

/-- Why a text is no timestamp. -/
inductive Fault where
  | tooShort
  | invalid
  | outOfRange
  | trailing
  | impossible
  deriving DecidableEq

def Fault.message : Fault → String
  | .tooShort => "premature end of input"
  | .invalid => "input contains invalid characters"
  | .outOfRange => "input is out of range"
  | .trailing => "trailing input"
  | .impossible => "no possible date and time matching input"

/-- A reader takes a prefix of the text and hands on the rest. -/
abbrev Reads (α : Type) := List Char → Except Fault (α × List Char)

/-- A run of at least one and at most `width` digits. -/
def number (width : Nat) : Reads Nat
  | [] => .error .tooShort
  | c :: cs =>
    if c.isDigit then
      let run := ((c :: cs).takeWhile Char.isDigit).take width
      .ok (Text.value run, (c :: cs).drop run.length)
    else .error .invalid

def literal (c : Char) : Reads Unit
  | [] => .error .tooShort
  | d :: rest => if c = d then .ok ((), rest) else .error .invalid

/-- A number of at most two digits between `lo` and `hi`; blanks may stand before it. -/
def field (lo hi : Nat) : Reads Nat := fun cs => do
  let (n, rest) ← number 2 (trimStart cs)
  if lo ≤ n ∧ n ≤ hi then .ok (n, rest) else .error .outOfRange

/-- Four digits at most, or a sign and any number of them. -/
def year : Reads Int := fun cs => do
  let (y, rest) ← (match trimStart cs with
    | '-' :: cs => do let (n, rest) ← number cs.length cs; .ok (-(n : Int), rest)
    | '+' :: cs => do let (n, rest) ← number cs.length cs; .ok ((n : Int), rest)
    | cs => do let (n, rest) ← number 4 cs; .ok ((n : Int), rest))
  if -2147483648 ≤ y ∧ y ≤ 2147483647 then .ok (y, rest) else .error .outOfRange

/-- Nothing, or a point and digits; those after the ninth are passed over. -/
def fraction : Reads Nat
  | '.' :: cs => do
    let (n, rest) ← number 9 cs
    .ok (n * Nat.pow 10 (9 - (cs.length - rest.length)), rest.dropWhile Char.isDigit)
  | cs => .ok (0, cs)

/-- The separator between date and time. -/
def separator : Reads Unit
  | [] => .error .tooShort
  | c :: rest => if c = 'T' ∨ c = 't' ∨ c = ' ' then .ok ((), rest) else .error .invalid

/-- Two digits of an offset. One character beyond ASCII is already too wide to be a digit. -/
def twoDigits : Reads (Nat × Nat)
  | [] => .error .tooShort
  | [c] => .error (if c.toNat < 0x80 then .tooShort else .invalid)
  | a :: b :: rest =>
    if a.isDigit ∧ b.isDigit then .ok ((Text.digitValue a, Text.digitValue b), rest)
    else .error .invalid

/-- The sign, hours and minutes of an offset, in minutes east of UTC. -/
def signedOffset (negative : Bool) : Reads Int := fun cs => do
  let ((h, h'), rest) ← twoDigits cs
  let ((m, m'), rest) ← twoDigits (rest.dropWhile fun c => c = ':' || Text.isBlank c)
  if 6 ≤ m then .error .outOfRange
  else
    let minutes : Int := (h * 10 + h') * 60 + (m * 10 + m')
    .ok (if negative then -minutes else minutes, rest)

def isUtc : List Char → Bool
  | a :: b :: c :: _ => a.toLower == 'u' && b.toLower == 't' && c.toLower == 'c'
  | _ => false

def offset : Reads Int := fun cs =>
  if isUtc cs then .ok (0, cs.drop 3)
  else match cs with
    | [] => .error .tooShort
    | c :: rest =>
      if c = 'Z' ∨ c = 'z' then .ok (0, rest)
      else if c = '+' then signedOffset false rest
      else if c = '-' ∨ c = '\u2212' then signedOffset true rest
      else .error .invalid

/-- The fields of a timestamp as they are written, before the offset is applied. -/
structure Local where
  year : Int
  month : Nat
  day : Nat
  hour : Nat
  minute : Nat
  second : Nat
  nano : Nat
  /-- In minutes east of UTC. -/
  offset : Int

def fields : Reads Local := fun cs => do
  let (year, cs) ← year cs
  let ((), cs) ← literal '-' (trimStart cs)
  let (month, cs) ← field 1 12 cs
  let ((), cs) ← literal '-' (trimStart cs)
  let (day, cs) ← field 1 31 cs
  let ((), cs) ← separator cs
  let (hour, cs) ← field 0 23 cs
  let ((), cs) ← literal ':' (trimStart cs)
  let (minute, cs) ← field 0 59 cs
  let ((), cs) ← literal ':' (trimStart cs)
  let (second, cs) ← field 0 60 cs
  let (nano, cs) ← fraction cs
  let (offset, cs) ← offset (trimStart cs)
  .ok (⟨year, month, day, hour, minute, second, nano, offset⟩, cs)

/-- The instant in UTC, for an offset of less than a day. -/
def Local.toUtc (l : Local) : Except Fault Timestamp :=
  match Date.of? l.year l.month l.day with
  | none => .error .outOfRange
  | some date =>
    if 1440 ≤ l.offset.natAbs then .error .outOfRange
    else
      let minutes : Int := l.hour * 60 + l.minute - l.offset
      match date.shift? (minutes.fdiv 1440) with
      | none => .error .impossible
      | some date =>
        let ofDay := (minutes.fmod 1440).toNat
        if h : ValidTime (ofDay / 60) (ofDay % 60) l.second l.nano then
          .ok ⟨date, ofDay / 60, ofDay % 60, l.second, l.nano, h⟩
        else .error .outOfRange

def read (cs : List Char) : Except Fault Timestamp := do
  let (l, rest) ← fields cs
  if trimStart rest = [] then l.toUtc else .error .trailing

def ofText (s : String) : Except Fault Timestamp := read s.toList

end MachineKeeper.Timestamp
