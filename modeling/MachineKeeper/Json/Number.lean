/-
  MachineKeeper.Json.Number — reading a JSON number.

  The digits before and after the point are gathered into a 64-bit significand; the digits that
  no longer fit count as powers of ten before the point and for nothing after it. A number with
  a fraction or an exponent, one that does not fit 64 bits, and a zero below zero are doubles;
  one that is beyond the largest double is refused.

  A number has no end of its own: the reader has to look at what follows it.
-/

import MachineKeeper.Json.Basic
import MachineKeeper.Json.Fault

namespace MachineKeeper.Json

abbrev Reads (α : Type) := List Char → Except Stop (α × List Char)

/-- Adds digits to a significand while it fits 64 bits; answers with how many were left over. -/
def gather (significand : Nat) : List Char → Nat × Nat
  | [] => (significand, 0)
  | c :: cs =>
    let next := significand * 10 + Text.digitValue c
    if next < UInt64.size then gather next cs else (significand, cs.length + 1)

def leadingDigits (cs : List Char) : List Char := cs.takeWhile Char.isDigit

def afterDigits (cs : List Char) : List Char := cs.dropWhile Char.isDigit

/-- What follows the digit that takes an exponent out of 32 bits, if one does. -/
def spilled? (n : Nat) : List Char → Option (List Char)
  | [] => none
  | c :: cs =>
    let next := n * 10 + Text.digitValue c
    if !c.isDigit then none
    else if 2147483648 ≤ next then some cs
    else spilled? next cs

/-- A number that is held as a double, with the text that follows it. -/
def double (negative : Bool) (significand : Nat) (scale : Int) : Reads Double := fun rest =>
  match Double.ofDecimal negative significand scale with
  | some d => .ok (d, rest)
  | none => .error (.on rest .numberOutOfRange)

/-- The rest of a number behind its `e`: sign and digits. -/
def exponent (negative : Bool) (significand : Nat) (scale : Int) : Reads Double := fun cs =>
  let (down, cs) : Bool × List Char := match cs with
    | '+' :: cs => (false, cs)
    | '-' :: cs => (true, cs)
    | cs => (false, cs)
  match cs with
  | [] => .error (.before [] .endInValue)
  | c :: _ =>
    if !c.isDigit then .error (.on cs .invalidNumber)
    else match spilled? 0 cs with
      | some rest =>
        if !down ∧ significand ≠ 0 then .error (.before rest .numberOutOfRange)
        else .ok (.zero negative, afterDigits cs)
      | none =>
        let n : Int := Text.value (leadingDigits cs)
        double negative significand (if down then scale - n else scale + n) (afterDigits cs)

/-- The rest of a number behind its point. -/
def fraction (negative : Bool) (significand : Nat) (scale : Int) : Reads Double := fun cs =>
  match leadingDigits cs with
  | [] => .error (.on cs (if cs = [] then .endInValue else .invalidNumber))
  | ds =>
    let (significand, dropped) := gather significand ds
    let scale := scale - (ds.length - dropped : Nat)
    match afterDigits cs with
    | 'e' :: cs => exponent negative significand scale cs
    | 'E' :: cs => exponent negative significand scale cs
    | cs => double negative significand scale cs

/-- A whole number as it stands, or none where it has to be held as a double. -/
def whole? (negative : Bool) (significand dropped : Nat) : Option Int :=
  if dropped ≠ 0 then none
  else if !negative then some significand
  else if significand = 0 ∨ 9223372036854775808 < significand then none
  else some (-significand)

/-- A number whose sign, if any, has been read. -/
def number (negative : Bool) : Reads Json := fun cs =>
  match cs with
  | [] => .error (.before [] .endInValue)
  | c :: rest =>
    if !c.isDigit then .error (.on cs .invalidNumber)
    else if c = '0' ∧ (leadingDigits rest).length ≠ 0 then .error (.on rest .invalidNumber)
    else
      let (significand, dropped) := gather 0 (leadingDigits cs)
      let decimal (r : Except Stop (Double × List Char)) : Except Stop (Json × List Char) :=
        r.map fun (d, rest) => (.decimal d, rest)
      match afterDigits cs with
      | '.' :: rest => decimal (fraction negative significand dropped rest)
      | 'e' :: rest => decimal (exponent negative significand dropped rest)
      | 'E' :: rest => decimal (exponent negative significand dropped rest)
      | rest =>
        match whole? negative significand dropped with
        | some n => .ok (.int n, rest)
        | none => decimal (double negative significand dropped rest)

/-! ## Passing over a number -/

def skipExponent (cs : List Char) : Except Stop (List Char) :=
  let cs := match cs with
    | '+' :: cs => cs
    | '-' :: cs => cs
    | cs => cs
  match leadingDigits cs with
  | [] => .error (.on cs .invalidNumber)
  | _ => .ok (afterDigits cs)

/-- A number whose sign, if any, has been read: only its form is checked. -/
def skipNumber (cs : List Char) : Except Stop (List Char) :=
  match cs with
  | [] => .error (.before [] .invalidNumber)
  | c :: rest =>
    if !c.isDigit then .error (.on cs .invalidNumber)
    else if c = '0' ∧ (leadingDigits rest).length ≠ 0 then .error (.on rest .invalidNumber)
    else
      match afterDigits cs with
      | '.' :: cs =>
        match leadingDigits cs with
        | [] => .error (.on cs .invalidNumber)
        | _ =>
          match afterDigits cs with
          | 'e' :: cs => skipExponent cs
          | 'E' :: cs => skipExponent cs
          | cs => .ok cs
      | 'e' :: cs => skipExponent cs
      | 'E' :: cs => skipExponent cs
      | cs => .ok cs

end MachineKeeper.Json
