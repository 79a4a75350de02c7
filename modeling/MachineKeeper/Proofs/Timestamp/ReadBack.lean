/-
  MachineKeeper.Proofs.Timestamp.ReadBack — a timestamp is read back from its text.

  The writer pads its numbers, so each of them is a run of digits that the reader takes as a
  whole: either it is as long as the reader takes numbers to be, or no digit follows. The writer
  puts the time in UTC, so no offset moves it.

  Proved:
  - `ofText_text`: for every timestamp, in any year, with a leap second and any fraction.
-/

import Mathlib.Algebra.Group.Nat.Defs
import MachineKeeper.Timestamp.Reader
import MachineKeeper.Timestamp.Writer

namespace MachineKeeper

/-! ## Padded numbers -/

namespace Text

theorem length_digits_le {n width : Nat} (hwidth : 0 < width) (h : n < 10 ^ width) : (digits n).length ≤ width := by
  induction width generalizing n with
  | zero => omega
  | succ width ih =>
    rw [digits]
    split
    · simp
    · rename_i hn
      have hpow : 10 ^ (width + 1) = 10 ^ width * 10 := Nat.pow_succ 10 width
      have hdiv : n / 10 < 10 ^ width := by omega
      have hpos : 0 < width := by
        rcases Nat.eq_zero_or_pos width with rfl | hpos
        · omega
        · exact hpos
      have := ih hpos hdiv
      simp only [List.length_append, List.length_singleton]
      omega

theorem length_padded {n width : Nat} (hwidth : 0 < width) (h : n < 10 ^ width) : (padded width n).length = width := by
  have := length_digits_le hwidth h
  simp only [padded, List.length_append, List.length_replicate]
  omega

theorem isDigit_of_mem_padded {width n : Nat} {c : Char} (h : c ∈ padded width n) : c.isDigit = true := by
  rcases List.mem_append.mp h with h | h
  · rw [List.eq_of_mem_replicate h]
    rfl
  · exact isDigit_of_mem_digits h

theorem padded_ne_nil (width n : Nat) : padded width n ≠ [] := by
  simp [padded, digits_ne_nil]

theorem value_padded (width n : Nat) : value (padded width n) = n := by
  have hzeros : ∀ k, (List.replicate k '0').foldl (fun n c => n * 10 + digitValue c) 0 = 0 := by
    intro k
    induction k with
    | zero => rfl
    | succ k ih => simpa [List.replicate_succ, digitValue] using ih
  rw [padded, value, List.foldl_append, hzeros]
  exact value_digits n

end Text

namespace Timestamp

open Text (padded trimStart)

theorem number_run {run rest : List Char} {width : Nat} (hne : run ≠ []) (hrun : ∀ c ∈ run, c.isDigit = true)
    (hwidth : run.length = width ∨ run.length ≤ width ∧ rest.takeWhile Char.isDigit = []) :
    number width (run ++ rest) = .ok (Text.value run, rest) := by
  have htake : ((run ++ rest).takeWhile Char.isDigit).take width = run := by
    rw [List.takeWhile_append_of_pos hrun]
    rcases hwidth with rfl | ⟨hle, hrest⟩
    · exact List.take_left' rfl
    · rw [hrest, List.append_nil]
      exact List.take_of_length_le hle
  cases run with
  | nil => exact absurd rfl hne
  | cons c cs =>
    rw [List.cons_append] at htake ⊢
    have hc := hrun c List.mem_cons_self
    simp only [number, hc, if_true, htake]
    rw [← List.cons_append, List.drop_left' rfl]

theorem number_padded (width : Nat) {n : Nat} (hwidth : 0 < width) (h : n < 10 ^ width) (rest : List Char) :
    number width (padded width n ++ rest) = .ok (n, rest) := by
  rw [number_run (Text.padded_ne_nil width n) (fun c hc => Text.isDigit_of_mem_padded hc)
    (.inl (Text.length_padded hwidth h)), Text.value_padded]

theorem head_padded (width n : Nat) : ∃ c cs, padded width n = c :: cs ∧ c.isDigit = true := by
  have hdigits : ∀ c ∈ padded width n, c.isDigit = true := fun c hc => Text.isDigit_of_mem_padded hc
  cases hp : padded width n with
  | nil => exact absurd hp (Text.padded_ne_nil width n)
  | cons c cs => exact ⟨c, cs, rfl, hdigits c (by simp [hp])⟩

theorem trimStart_padded (width n : Nat) (rest : List Char) :
    trimStart (padded width n ++ rest) = padded width n ++ rest := by
  obtain ⟨c, cs, hp, hc⟩ := head_padded width n
  rw [hp, List.cons_append, Text.trimStart_cons (Text.isBlank_of_isDigit hc)]

theorem field_padded (lo hi : Nat) {n : Nat} (hlo : lo ≤ n) (hhi : n ≤ hi) (h : n < 100) (rest : List Char) :
    field lo hi (padded 2 n ++ rest) = .ok (n, rest) := by
  have hnumber := number_padded 2 (by decide) h rest
  have hrange : lo ≤ n ∧ n ≤ hi := ⟨hlo, hhi⟩
  simp only [field, trimStart_padded, hnumber, bind, Except.bind, if_pos hrange]

/-! ## Years and fractions -/

/-- A year with a sign takes all digits up to what follows it. -/
theorem number_signed (n : Nat) {rest : List Char} (hrest : rest.takeWhile Char.isDigit = []) :
    number (padded 4 n ++ rest).length (padded 4 n ++ rest) = .ok (n, rest) := by
  have hlength : (padded 4 n).length ≤ (padded 4 n ++ rest).length := by simp
  rw [number_run (Text.padded_ne_nil 4 n) (fun c hc => Text.isDigit_of_mem_padded hc) (.inr ⟨hlength, hrest⟩),
    Text.value_padded]

theorem year_yearText {y : Int} (hy : Date.minYear ≤ y ∧ y ≤ Date.maxYear) {rest : List Char}
    (hrest : rest.takeWhile Char.isDigit = []) : year (yearText y ++ rest) = .ok (y, rest) := by
  simp only [Date.minYear, Date.maxYear] at hy
  have hrange : -2147483648 ≤ y ∧ y ≤ 2147483647 := by omega
  by_cases hplain : 0 ≤ y ∧ y ≤ 9999
  · have hnumber := number_padded (n := y.natAbs) 4 (by decide) (by omega) rest
    obtain ⟨c, cs, hp, hc⟩ := head_padded 4 y.natAbs
    have habs : (y.natAbs : Int) = y := by omega
    simp only [year, yearText, if_pos hplain, trimStart_padded]
    rw [hp, List.cons_append] at hnumber ⊢
    split
    · rename_i heq
      rw [(List.cons.inj heq).1] at hc
      cases hc
    · rename_i heq
      rw [(List.cons.inj heq).1] at hc
      cases hc
    · simp only [hnumber, bind, Except.bind, habs, if_pos hrange]
  · have hnumber := number_signed y.natAbs hrest
    by_cases hneg : y < 0
    · have habs : -(y.natAbs : Int) = y := by omega
      have hminus : trimStart ('-' :: (padded 4 y.natAbs ++ rest)) = '-' :: (padded 4 y.natAbs ++ rest) :=
        Text.trimStart_cons rfl _
      simp only [year, yearText, if_neg hplain, if_pos hneg, List.cons_append, hminus, hnumber, bind, Except.bind, habs,
        if_pos hrange]
    · have habs : (y.natAbs : Int) = y := by omega
      have hplus : trimStart ('+' :: (padded 4 y.natAbs ++ rest)) = '+' :: (padded 4 y.natAbs ++ rest) :=
        Text.trimStart_cons rfl _
      simp only [year, yearText, if_neg hplain, if_neg hneg, List.cons_append, hplus, hnumber, bind, Except.bind, habs,
        if_pos hrange]

/-- A fraction of so many digits, in units of its last one. -/
theorem fraction_padded (width : Nat) {n : Nat} (hwidth : 0 < width) (hle : width ≤ 9) (h : n < 10 ^ width) {rest : List Char}
    (hrest : ∃ c cs, rest = c :: cs ∧ c.isDigit = false) :
    fraction ('.' :: (padded width n ++ rest)) = .ok (n * 10 ^ (9 - width), rest) := by
  obtain ⟨c, cs, rfl, hc⟩ := hrest
  have htake : (c :: cs).takeWhile Char.isDigit = [] := List.takeWhile_cons_of_neg (by simp [hc])
  have hdrop : (c :: cs).dropWhile Char.isDigit = c :: cs := List.dropWhile_cons_of_neg (by simp [hc])
  have hlength : (padded width n).length = width := Text.length_padded hwidth h
  have hnumber : number 9 (padded width n ++ c :: cs) = .ok (n, c :: cs) := by
    rw [number_run (Text.padded_ne_nil width n) (fun c hc => Text.isDigit_of_mem_padded hc)
      (.inr ⟨by omega, htake⟩), Text.value_padded]
  have hread : (padded width n ++ c :: cs).length - (c :: cs).length = width := by
    simp only [List.length_append, hlength]
    omega
  simp only [fraction, hnumber, bind, Except.bind, hread, hdrop]
  rfl

theorem fraction_fractionText {nano : Nat} (h : nano < 1000000000) :
    fraction (fractionText nano ++ ['Z']) = .ok (nano, ['Z']) := by
  have hbehind : ∃ c cs, ['Z'] = c :: cs ∧ c.isDigit = false := ⟨'Z', [], rfl, rfl⟩
  unfold fractionText
  split
  · subst nano
    rfl
  split
  · have hread := fraction_padded (n := nano / 1000000) 3 (by decide) (by decide) (by omega) hbehind
    rw [List.cons_append, hread]
    congr
    omega
  split
  · have hread := fraction_padded (n := nano / 1000) 6 (by decide) (by decide) (by omega) hbehind
    rw [List.cons_append, hread]
    congr
    omega
  · have hread := fraction_padded (n := nano) 9 (by decide) (by decide) (by omega) hbehind
    rw [List.cons_append, hread]
    congr
    omega

/-! ## The whole text -/

theorem literal_cons {c : Char} (hc : Text.isBlank c = false) (rest : List Char) :
    literal c (trimStart (c :: rest)) = .ok ((), rest) := by
  simp only [Text.trimStart_cons hc, literal, if_true]

theorem fields_write (t : Timestamp) :
    fields t.write = .ok (⟨t.date.year, t.date.month, t.date.day, t.hour, t.minute, t.second, t.nano, 0⟩, []) := by
  obtain ⟨hyear, ⟨hmonth, hmonth'⟩, hday, hday'⟩ := t.date.valid
  obtain ⟨hhour, hminute, hsecond, hnano⟩ := t.validTime
  have hday31 : t.date.day ≤ 31 := by
    refine Nat.le_trans hday' ?_
    unfold daysInMonth
    split
    · split <;> decide
    · split <;> decide
  have hdash : ∀ cs, ('-' :: cs).takeWhile Char.isDigit = [] := fun cs => List.takeWhile_cons_of_neg (by decide)
  have hoffset : offset (trimStart ['Z']) = .ok (0, []) := rfl
  simp only [write, List.append_assoc, List.cons_append, fields, year_yearText hyear (hdash _),
    literal_cons (c := '-') rfl, field_padded 1 12 hmonth hmonth' (by omega), field_padded 1 31 hday hday31 (by omega),
    bind, Except.bind]
  simp only [separator, true_or, if_true, field_padded 0 23 (Nat.zero_le _) (by omega : t.hour ≤ 23) (by omega),
    literal_cons (c := ':') rfl, field_padded 0 59 (Nat.zero_le _) (by omega : t.minute ≤ 59) (by omega),
    field_padded 0 60 (Nat.zero_le _) hsecond (by omega), fraction_fractionText hnano, hoffset]

theorem toUtc_utc (t : Timestamp) :
    Local.toUtc ⟨t.date.year, t.date.month, t.date.day, t.hour, t.minute, t.second, t.nano, 0⟩ = .ok t := by
  obtain ⟨hhour, hminute, hsecond, hnano⟩ := t.validTime
  have hdate : Date.of? t.date.year t.date.month t.date.day = some t.date := dif_pos t.date.valid
  have hmod : ((t.hour : Int) * 60 + t.minute - 0).fmod 1440 = t.hour * 60 + t.minute := by
    rw [Int.fmod_eq_emod_of_nonneg _ (by decide)]
    omega
  have hdiv : ((t.hour : Int) * 60 + t.minute - 0).fdiv 1440 = 0 := by
    rw [Int.fdiv_eq_ediv_of_nonneg _ (by decide)]
    omega
  have hofDay : ((t.hour : Int) * 60 + t.minute).toNat = t.hour * 60 + t.minute := by omega
  have hhours : (t.hour * 60 + t.minute) / 60 = t.hour := by omega
  have hminutes : (t.hour * 60 + t.minute) % 60 = t.minute := by omega
  simp only [Local.toUtc, hdate, hmod, hdiv, hofDay, hhours, hminutes, Date.shift?]
  simp [t.validTime]

theorem ofText_text (t : Timestamp) : Timestamp.ofText t.text = .ok t := by
  have hread : read t.write = .ok t := by
    simp only [read, fields_write, bind, Except.bind]
    exact toUtc_utc t
  rwa [ofText, text, String.toList_ofList]

example : Timestamp.text ⟨⟨-262143, 1, 1, by decide⟩, 23, 59, 60, 120000000, by decide⟩ =
    "-262143-01-01T23:59:60.120Z" := by cbv

end Timestamp

end MachineKeeper
