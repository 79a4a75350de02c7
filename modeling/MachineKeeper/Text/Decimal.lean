/-
  MachineKeeper.Text.Decimal — numbers as decimal digits.

  `digits` writes a number without leading zeros; `value` reads any run of digits, most
  significant first. `value_digits` says the second undoes the first.
-/

namespace MachineKeeper.Text

def digitValue (c : Char) : Nat := c.toNat - '0'.toNat

def digitChar (n : Nat) : Char := Char.ofNat ('0'.toNat + n)

def value (cs : List Char) : Nat := cs.foldl (fun n c => n * 10 + digitValue c) 0

def digits (n : Nat) : List Char :=
  if n < 10 then [digitChar n] else digits (n / 10) ++ [digitChar (n % 10)]
termination_by n

def intDigits (n : Int) : List Char :=
  if n < 0 then '-' :: digits n.natAbs else digits n.natAbs

/-- The digits of `n`, with zeros in front up to `width` characters. -/
def padded (width n : Nat) : List Char :=
  List.replicate (width - (digits n).length) '0' ++ digits n

def decimal (n : Nat) : String := String.ofList (digits n)

def intDecimal (n : Int) : String := String.ofList (intDigits n)

/-! ## Reading undoes writing -/

theorem digitValue_digitChar {n : Nat} (h : n < 10) : digitValue (digitChar n) = n := by
  match n, h with
  | 0, _ | 1, _ | 2, _ | 3, _ | 4, _ | 5, _ | 6, _ | 7, _ | 8, _ | 9, _ => decide

theorem isDigit_digitChar {n : Nat} (h : n < 10) : (digitChar n).isDigit = true := by
  match n, h with
  | 0, _ | 1, _ | 2, _ | 3, _ | 4, _ | 5, _ | 6, _ | 7, _ | 8, _ | 9, _ => decide

theorem value_append_singleton (cs : List Char) (c : Char) :
    value (cs ++ [c]) = value cs * 10 + digitValue c := by
  simp [value]

theorem value_digits (n : Nat) : value (digits n) = n := by
  induction n using Nat.strongRecOn with
  | _ n ih =>
    rw [digits]
    split
    · simp [value, digitValue_digitChar (by assumption)]
    · rw [value_append_singleton, ih (n / 10) (by omega), digitValue_digitChar (by omega)]
      omega

theorem isDigit_of_mem_digits {n : Nat} {c : Char} (h : c ∈ digits n) : c.isDigit = true := by
  induction n using Nat.strongRecOn with
  | _ n ih =>
    rw [digits] at h
    split at h
    · rw [List.mem_singleton.mp h]
      exact isDigit_digitChar (by assumption)
    · rcases List.mem_append.mp h with h | h
      · exact ih (n / 10) (by omega) h
      · rw [List.mem_singleton.mp h]
        exact isDigit_digitChar (by omega)

theorem digits_ne_nil (n : Nat) : digits n ≠ [] := by
  rw [digits]
  split <;> simp

/-- Digits only add to what stands before them. -/
theorem le_foldl_digits (cs : List Char) (n : Nat) : n ≤ cs.foldl (fun n c => n * 10 + digitValue c) n := by
  induction cs generalizing n with
  | nil => exact Nat.le_refl n
  | cons c cs ih =>
    have hc : n ≤ n * 10 + digitValue c := by omega
    exact Nat.le_trans hc (ih _)

end MachineKeeper.Text
