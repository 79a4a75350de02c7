/-
  MachineKeeper.Proofs.Json.Scalar — strings and whole numbers are read back as they were written.

  A string ends with its quote, so it is read back before anything. A number has no end of its
  own, so it is read back only before a text that does not go on with it (`Ends`); whatever the
  writer puts behind a value does not.

  Proved:
  - `stringTail_write`: every string, whatever characters it is made of.
  - `back_str`, `back_int`: a string, and an integer within 64 bits, as values.
-/

import MachineKeeper.Json.Codec

namespace MachineKeeper.Json

/-- The text does not go on with a number that ends before it. -/
def Ends (rest : List Char) : Prop := ∀ c ∈ rest.head?, c.isDigit = false ∧ c ≠ '.' ∧ c ≠ 'e' ∧ c ≠ 'E'

theorem ends_nil : Ends [] := by
  rintro c ⟨⟩

theorem ends_cons {c : Char} (h : c.isDigit = false ∧ c ≠ '.' ∧ c ≠ 'e' ∧ c ≠ 'E') (rest : List Char) :
    Ends (c :: rest) := by
  rintro _ ⟨⟩
  exact h

theorem mapError_ok {ε ε' α : Type} (f : ε → ε') (a : α) : (Except.ok a : Except ε α).mapError f = .ok a := rfl

/-! ## Strings -/

theorem hexValue?_hexDigit {n : Nat} (h : n < 16) : hexValue? (Text.hexDigit n) = some n := by
  revert n
  decide

theorem hexEscape_low {n : Nat} (h : n < 0x20) (rest : List Char) :
    hexEscape ('0' :: '0' :: Text.hexDigit (n / 16) :: Text.hexDigit (n % 16) :: rest) = .ok (n, rest) := by
  have hzero : hexValue? '0' = some 0 := by decide
  have hhigh : hexValue? (Text.hexDigit (n / 16)) = some (n / 16) := hexValue?_hexDigit (by omega)
  have hlow : hexValue? (Text.hexDigit (n % 16)) = some (n % 16) := hexValue?_hexDigit (by omega)
  simp only [hexEscape, hzero, hhigh, hlow]
  congr
  omega

/-- A character is written as its own escape, as a code unit, or as it stands. -/
theorem escapeChar_cases (c : Char) :
    (∃ e, escapeChar c = ['\\', e] ∧ simpleEscape? e = some c) ∨
      (c.toNat < 0x20 ∧ escapeChar c =
        ['\\', 'u', '0', '0', Text.hexDigit (c.toNat / 16), Text.hexDigit (c.toNat % 16)]) ∨
      (c ≠ '"' ∧ c ≠ '\\' ∧ ¬c.toNat < 0x20 ∧ escapeChar c = [c]) := by
  unfold escapeChar
  iterate 7
    split
    · exact .inl ⟨_, rfl, by subst_vars; rfl⟩
  split
  · exact .inr (.inl ⟨by assumption, rfl⟩)
  · exact .inr (.inr ⟨by assumption, by assumption, by assumption, rfl⟩)

theorem codeUnits_low {c : Char} (h : c.toNat < 0x20) (rest : List Char) :
    codeUnits ('0' :: '0' :: Text.hexDigit (c.toNat / 16) :: Text.hexDigit (c.toNat % 16) :: rest) = .ok (c, rest) := by
  have hlow : ¬(0xDC00 ≤ c.toNat ∧ c.toNat ≤ 0xDFFF) := by omega
  have hhigh : ¬(0xD800 ≤ c.toNat ∧ c.toNat ≤ 0xDBFF) := by omega
  simp only [codeUnits, hexEscape_low h, bind, Except.bind, if_neg hlow, if_neg hhigh, Char.ofNat_toNat]

theorem stringChar_escapeChar (c : Char) (rest : List Char) :
    stringChar (escapeChar c ++ rest) = .ok (some c, rest) := by
  rcases escapeChar_cases c with ⟨e, he, hc⟩ | ⟨hlow, he⟩ | ⟨hquote, hslash, hlow, he⟩
  · simp [he, stringChar, hc]
  · have hu : simpleEscape? 'u' = none := rfl
    simp [he, stringChar, hu, codeUnits_low hlow, bind, Except.bind]
  · simp [he, stringChar, hquote, hslash, hlow]

theorem stringChars_escaped (cs rest : List Char) {fuel : Nat} (hfuel : cs.length < fuel) :
    stringChars fuel (cs.flatMap escapeChar ++ '"' :: rest) = .ok (cs, rest) := by
  induction cs generalizing fuel with
  | nil =>
    obtain ⟨fuel, rfl⟩ := Nat.exists_eq_add_of_lt hfuel
    rfl
  | cons c cs ih =>
    obtain ⟨fuel, rfl⟩ : ∃ n, fuel = n + 1 := ⟨fuel - 1, by simp only [List.length_cons] at hfuel; omega⟩
    have hcs : cs.length < fuel := by simpa using hfuel
    simp only [List.flatMap_cons, List.append_assoc, stringChars, stringChar_escapeChar, ih hcs, bind, Except.bind]

theorem length_le_escaped (cs : List Char) : cs.length ≤ (cs.flatMap escapeChar).length := by
  induction cs with
  | nil => exact Nat.le_refl _
  | cons c cs ih =>
    have hc : 1 ≤ (escapeChar c).length := by
      rcases escapeChar_cases c with ⟨e, he, -⟩ | ⟨-, he⟩ | ⟨-, -, -, he⟩ <;> simp [he]
    simp only [List.flatMap_cons, List.length_append, List.length_cons]
    omega

/-- The rest of a written string, behind its opening quote. -/
theorem stringTail_write (s : String) (rest : List Char) :
    stringTail (s.toList.flatMap escapeChar ++ '"' :: rest) = .ok (s, rest) := by
  have hfuel : s.toList.length < (s.toList.flatMap escapeChar ++ '"' :: rest).length + 1 := by
    have := length_le_escaped s.toList
    simp only [List.length_append]
    omega
  simp only [stringTail, stringChars_escaped s.toList rest hfuel, bind, Except.bind, String.ofList_toList]

/-! ## Digits -/

theorem leadingDigits_of_ends {rest : List Char} (h : Ends rest) : leadingDigits rest = [] := by
  cases rest with
  | nil => rfl
  | cons c cs => exact List.takeWhile_cons_of_neg (by simp [(h c rfl).1])

theorem afterDigits_of_ends {rest : List Char} (h : Ends rest) : afterDigits rest = rest := by
  cases rest with
  | nil => rfl
  | cons c cs => exact List.dropWhile_cons_of_neg (by simp [(h c rfl).1])

theorem leadingDigits_append (n : Nat) {rest : List Char} (h : Ends rest) :
    leadingDigits (Text.digits n ++ rest) = Text.digits n := by
  have hrest := leadingDigits_of_ends h
  rw [leadingDigits] at hrest ⊢
  rw [List.takeWhile_append_of_pos fun c hc => Text.isDigit_of_mem_digits hc, hrest, List.append_nil]

theorem afterDigits_append (n : Nat) {rest : List Char} (h : Ends rest) :
    afterDigits (Text.digits n ++ rest) = rest := by
  have hrest := afterDigits_of_ends h
  rw [afterDigits] at hrest ⊢
  rw [List.dropWhile_append_of_pos fun c hc => Text.isDigit_of_mem_digits hc, hrest]

/-- Only zero itself starts with a zero. -/
theorem digits_eq_zero_cons {n : Nat} {ds : List Char} (h : Text.digits n = '0' :: ds) : ds = [] ∧ n = 0 := by
  induction n using Nat.strongRecOn generalizing ds with
  | _ n ih =>
    rw [Text.digits] at h
    split at h
    · rename_i hn
      obtain ⟨hc, rfl⟩ := List.cons.inj h
      have hvalue := Text.digitValue_digitChar hn
      rw [hc] at hvalue
      exact ⟨rfl, hvalue.symm⟩
    · rename_i hn
      cases hd : Text.digits (n / 10) with
      | nil => exact absurd hd (Text.digits_ne_nil _)
      | cons c cs =>
        rw [hd] at h
        obtain ⟨rfl, -⟩ := List.cons.inj h
        have := (ih (n / 10) (by omega) hd).2
        omega

/-- Nothing is left over of digits that fit. -/
theorem gather_of_lt {cs : List Char} {n : Nat}
    (h : cs.foldl (fun n c => n * 10 + Text.digitValue c) n < UInt64.size) :
    gather n cs = (cs.foldl (fun n c => n * 10 + Text.digitValue c) n, 0) := by
  induction cs generalizing n with
  | nil => rfl
  | cons c cs ih =>
    have hc : n * 10 + Text.digitValue c < UInt64.size := Nat.lt_of_le_of_lt (Text.le_foldl_digits cs _) h
    simp only [gather, if_pos hc]
    exact ih h

theorem gather_digits {n : Nat} (h : n < UInt64.size) : gather 0 (Text.digits n) = (n, 0) := by
  have hvalue : (Text.digits n).foldl (fun n c => n * 10 + Text.digitValue c) 0 = n := Text.value_digits n
  rw [gather_of_lt (by rwa [hvalue]), hvalue]

/-- A whole number that need not be held as a double. -/
theorem number_digits {negative : Bool} {n : Nat} {z : Int} (hn : n < UInt64.size)
    (hz : whole? negative n 0 = some z) {rest : List Char} (h : Ends rest) :
    number negative (Text.digits n ++ rest) = .ok (.int z, rest) := by
  have hlead := leadingDigits_append n h
  have hafter := afterDigits_append n h
  have hgather := gather_digits hn
  cases hd : Text.digits n with
  | nil => exact absurd hd (Text.digits_ne_nil n)
  | cons c ds =>
    have hc : c.isDigit = true := Text.isDigit_of_mem_digits (n := n) (by simp [hd])
    have hzero : ¬(c = '0' ∧ (leadingDigits (ds ++ rest)).length ≠ 0) := by
      rintro ⟨rfl, hlong⟩
      obtain ⟨rfl, -⟩ := digits_eq_zero_cons hd
      exact hlong (by rw [List.nil_append, leadingDigits_of_ends h]; rfl)
    rw [hd] at hlead hafter hgather
    rw [List.cons_append] at hlead hafter ⊢
    simp only [number, hc, Bool.not_true, Bool.false_eq_true, if_false, hzero, hlead, hafter, hgather, hz]
    split
    · exact absurd rfl (h '.' rfl).2.1
    · exact absurd rfl (h 'e' rfl).2.2.1
    · exact absurd rfl (h 'E' rfl).2.2.2
    · rfl

/-! ## Values -/

/-- How a value may begin that holds no others. -/
def Begins (c : Char) : Prop := isSpace c = false ∧ c ≠ ']' ∧ c ≠ '[' ∧ c ≠ '\x7b' ∧ c ≠ 'n'

theorem begins_of_isDigit {c : Char} (h : c.isDigit = true) : Begins c := by
  refine ⟨?_, ?_, ?_, ?_, ?_⟩
  case refine_1 =>
    rw [Bool.eq_false_iff]
    intro hs
    simp only [isSpace, Bool.or_eq_true, beq_iff_eq] at hs
    rcases hs with ((rfl | rfl) | rfl) | rfl <;> cases h
  all_goals
    rintro rfl
    cases h

/-- A written value that is read back before every text that does not go on with it. -/
def ReadsBack (j : Json) : Prop := ∃ c cs, j.write = c :: cs ∧ Begins c ∧
  ∀ rest, Ends rest → scalar c (cs ++ rest) = .ok (j, rest)

theorem back_str (s : String) : ReadsBack (.str s) := by
  refine ⟨'"', _, rfl, ⟨rfl, ?_, ?_, ?_, ?_⟩, fun rest _ => ?_⟩
  case refine_5 =>
    simp [scalar, stringTail_write, bind, Except.bind]
  all_goals decide

theorem scalar_of_isDigit {c : Char} (h : c.isDigit = true) (cs : List Char) :
    scalar c cs = number false (c :: cs) := by
  have hn : c ≠ 'n' := by
    rintro rfl
    cases h
  have ht : c ≠ 't' := by
    rintro rfl
    cases h
  have hf : c ≠ 'f' := by
    rintro rfl
    cases h
  have hm : c ≠ '-' := by
    rintro rfl
    cases h
  simp only [scalar, hn, ht, hf, hm, h, if_false, if_true]

theorem back_int {z : Int} (hlow : -9223372036854775808 ≤ z) (hhigh : z < UInt64.size) : ReadsBack (.int z) := by
  have hsize : UInt64.size = 18446744073709551616 := rfl
  by_cases hz : z < 0
  · have hwhole : whole? true z.natAbs 0 = some z := by
      have hfits : ¬(z.natAbs = 0 ∨ 9223372036854775808 < z.natAbs) := by omega
      simp only [whole?, ne_eq, not_true, if_false, Bool.not_true, Bool.false_eq_true, if_neg hfits]
      congr
      omega
    refine ⟨'-', _, by rw [write, Text.intDigits, if_pos hz], ⟨rfl, ?_, ?_, ?_, ?_⟩, fun rest hrest => ?_⟩
    case refine_5 => exact number_digits (by omega) hwhole hrest
    all_goals decide
  · cases hd : Text.digits z.natAbs with
    | nil => exact absurd hd (Text.digits_ne_nil _)
    | cons c ds =>
      have hc : c.isDigit = true := Text.isDigit_of_mem_digits (n := z.natAbs) (by simp [hd])
      have hwhole : whole? false z.natAbs 0 = some z := by
        simp only [whole?, ne_eq, not_true, if_false, Bool.not_false, if_true]
        congr
        omega
      refine ⟨c, ds, by rw [write, Text.intDigits, if_neg hz, hd], begins_of_isDigit hc, fun rest hrest => ?_⟩
      have hnumber := number_digits (by omega) hwhole hrest
      rw [hd, List.cons_append] at hnumber
      rw [scalar_of_isDigit hc, hnumber]

end MachineKeeper.Json
