/-
  MachineKeeper.Json.Double — the doubles that hold numbers with a fraction or an exponent.

  A double is `significand * 2 ^ exponent` and a sign, with 53 bits of significand and no
  exponent below that of the least double. `nearest` rounds a fraction to it, a tie to the even
  neighbour. `ofDecimal` makes one from decimal digits and a power of ten in two or three
  roundings: digits, power and outcome are each rounded, so the last place may be off. What is
  beyond the largest double is no double.

  A double is written with the digits of `shortest`: the point of the coarsest decimal grid on
  which some point rounds to it; of two such points the nearer, and of two as near the even one.
-/

import MachineKeeper.Text.Decimal

namespace MachineKeeper.Json

structure Double where
  negative : Bool
  significand : Nat
  exponent : Int
  deriving DecidableEq, Inhabited

namespace Double

def leastExponent : Int := -1074

/-- The exponent of the largest double. -/
def greatestExponent : Int := 971

/-- The least significand of 53 bits. -/
def leastNormal : Nat := Nat.pow 2 52

def zero (negative : Bool) : Double := ⟨negative, 0, leastExponent⟩

def isFinite (d : Double) : Bool := d.exponent ≤ greatestExponent

/-! ## Rounding -/

/-- `num / den * 2 ^ (-e)` as a fraction. -/
def scaleDown (num den : Nat) (e : Int) : Nat × Nat :=
  if e < 0 then (num * Nat.pow 2 e.natAbs, den) else (num, den * Nat.pow 2 e.natAbs)

/-- The `e` with `2 ^ e ≤ num / den < 2 ^ (e + 1)`. -/
def order (num den : Nat) : Int :=
  let guess : Int := num.log2 - den.log2
  let (n, d) := scaleDown num den guess
  if d ≤ n then guess else guess - 1

def roundQuotient (num den : Nat) : Nat :=
  let q := num / den
  let twice := 2 * (num % den)
  if den < twice || (twice == den && q % 2 == 1) then q + 1 else q

/-- The double nearest to a fraction, if doubles had no largest exponent. -/
def nearest (negative : Bool) (num den : Nat) : Double :=
  if num = 0 then zero negative
  else
    let e := max (order num den - 52) leastExponent
    let (n, d) := scaleDown num den e
    let q := roundQuotient n d
    if q = 2 * leastNormal then ⟨negative, leastNormal, e + 1⟩ else ⟨negative, q, e⟩

/-- `a * 2 ^ e / b`, rounded. -/
def rounded (negative : Bool) (a b : Nat) (e : Int) : Double :=
  let (n, d) := scaleDown a b (-e)
  nearest negative n d

def powerOfTen (n : Nat) : Double := nearest false (Nat.pow 10 n) 1

def timesPower (d : Double) (n : Nat) : Double :=
  let p := powerOfTen n
  rounded d.negative (d.significand * p.significand) 1 (d.exponent + p.exponent)

def overPower (d : Double) (n : Nat) : Double :=
  let p := powerOfTen n
  rounded d.negative d.significand p.significand (d.exponent - p.exponent)

/-- The largest power of ten below the largest double. -/
def greatestPower : Nat := 308

/-- `significand * 10 ^ exponent`, if that is no larger than the largest double. -/
def ofDecimal (negative : Bool) (significand : Nat) (exponent : Int) : Option Double :=
  let d := nearest negative significand 1
  let n := exponent.natAbs
  if significand = 0 then some (zero negative)
  else if 0 ≤ exponent then
    if greatestPower < n then none
    else
      let d := d.timesPower n
      if d.isFinite then some d else none
  else if n ≤ greatestPower then some (d.overPower n)
  else if n ≤ 2 * greatestPower then
    some ((d.overPower greatestPower).overPower (n - greatestPower))
  else some (zero negative)

/-! ## Shortest digits -/

/--
The points between which every decimal is read as this double, and the double itself, in
quarters of its unit. The gap below is half as wide where the exponent changes.
-/
structure Span where
  low : Nat
  middle : Nat
  high : Nat
  /-- Whether the ends belong to it. -/
  closed : Bool

def span (d : Double) : Span :=
  let edge := d.significand = leastNormal ∧ leastExponent < d.exponent
  ⟨4 * d.significand - (if edge then 1 else 2), 4 * d.significand, 4 * d.significand + 2,
    d.significand % 2 == 0⟩

/-- Whether `n / unit` lies in the span, all in the same measure. -/
def Span.holds (s : Span) (scale n : Nat) : Bool :=
  if s.closed then s.low * scale ≤ n && n ≤ s.high * scale
  else s.low * scale < n && n < s.high * scale

/-- The point of the grid of `10 ^ j` that is nearest to the double, if one lies in its span. -/
def gridPoint? (d : Double) (j : Int) : Option Nat :=
  let s := d.span
  let (scale, unit) := scaleDown 1 1 (2 - d.exponent)
  let (scale, unit) :=
    if j < 0 then (scale * Nat.pow 10 j.natAbs, unit) else (scale, unit * Nat.pow 10 j.natAbs)
  let below := s.middle * scale / unit
  let above := below + 1
  match s.holds scale (below * unit), s.holds scale (above * unit) with
  | true, true =>
    let toBelow := s.middle * scale - below * unit
    let toAbove := above * unit - s.middle * scale
    some (if toBelow < toAbove || (toBelow == toAbove && below % 2 == 0) then below else above)
  | true, false => some below
  | false, true => some above
  | false, false => none

/-- The first grid from `10 ^ j` down that has a point in the span, with that point. -/
def coarsest (d : Double) : Nat → Int → Nat × Int
  | 0, j => (0, j)
  | fuel + 1, j =>
    match d.gridPoint? j with
    | some n => (n, j)
    | none => coarsest d fuel (j - 1)

/-- Digits and power of ten. Seventeen digits always do; the search starts three above. -/
def shortest (d : Double) : Nat × Int :=
  if d.significand = 0 then (0, 0)
  else
    let order : Int := d.significand.log2 + d.exponent
    d.coarsest 24 (order * 30103 / 100000 + 2)

/-! ## Writing -/

def sign (d : Double) : List Char := if d.negative then ['-'] else []

def zeros (n : Nat) : List Char := List.replicate n '0'

/-- Digits with a point `places` before their end, and zeros where there are no digits. -/
def pointed (ds : List Char) (places : Nat) : List Char :=
  let whole := ds.length - places
  if places < ds.length then ds.take whole ++ '.' :: ds.drop whole
  else '0' :: '.' :: (zeros (places - ds.length) ++ ds)

/-- Without an exponent, however long that is. -/
def plain (d : Double) : List Char :=
  let (n, j) := d.shortest
  let ds := Text.digits n
  d.sign ++ if 0 ≤ j then ds ++ zeros j.natAbs ++ ['.', '0'] else pointed ds j.natAbs

/-- With an exponent from 10^16 on and below 10^-5. -/
def compact (d : Double) : List Char :=
  let (n, j) := d.shortest
  let ds := Text.digits n
  let top : Int := ds.length + j
  d.sign ++
    if 0 ≤ j ∧ top ≤ 16 then ds ++ zeros j.natAbs ++ ['.', '0']
    else if j < 0 ∧ -5 < top ∧ top ≤ 16 then pointed ds j.natAbs
    else
      let fraction := if ds.length ≤ 1 then [] else '.' :: ds.drop 1
      ds.take 1 ++ fraction ++ 'e' :: Text.intDigits (top - 1)

end Double

end MachineKeeper.Json
