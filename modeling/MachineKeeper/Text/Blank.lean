/-
  MachineKeeper.Text.Blank — white space, as the Unicode property `White_Space` names it.

  Settings and timestamps may be surrounded by any of these characters; JSON knows only four
  of them and has its own test (`Json.isSpace`).

  `trim` takes them off both ends. `trim_eq_iff` says what is left: all but blanks in front and
  behind, and at neither end a blank.
-/

namespace MachineKeeper.Text

def isBlank (c : Char) : Bool :=
  let n := c.toNat
  (9 ≤ n && n ≤ 13) || n == 0x20 || n == 0x85 || n == 0xa0 || n == 0x1680 ||
    (0x2000 ≤ n && n ≤ 0x200a) || n == 0x2028 || n == 0x2029 || n == 0x202f || n == 0x205f ||
    n == 0x3000

def trimStart (cs : List Char) : List Char := cs.dropWhile isBlank

def trim (cs : List Char) : List Char := (trimStart (trimStart cs).reverse).reverse

/-! ## What trimming leaves -/

theorem trimStart_cons {c : Char} (h : isBlank c = false) (cs : List Char) : trimStart (c :: cs) = c :: cs :=
  List.dropWhile_cons_of_neg (by simp [h])

theorem isBlank_of_isDigit {c : Char} (h : c.isDigit = true) : isBlank c = false := by
  simp only [Char.isDigit, Bool.and_eq_true, decide_eq_true_eq] at h
  have hlow : 48 ≤ c.toNat := h.1
  have hhigh : c.toNat ≤ 57 := h.2
  simp [isBlank]
  omega

/-- Only blanks go. -/
theorem exists_trimStart (cs : List Char) : ∃ before, cs = before ++ trimStart cs ∧ ∀ c ∈ before, isBlank c = true :=
  ⟨cs.takeWhile isBlank, List.takeWhile_append_dropWhile.symm, List.all_eq_true.mp List.all_takeWhile⟩

theorem isBlank_of_head_trimStart {cs : List Char} {c : Char} (h : (trimStart cs).head? = some c) : isBlank c = false := by
  have hhead := List.head?_dropWhile_not isBlank cs
  unfold trimStart at h
  rw [h] at hhead
  exact hhead

/-- The blanks in front go, as far as what is behind them does not begin with one. -/
theorem trimStart_append {before rest : List Char} (hbefore : ∀ c ∈ before, isBlank c = true)
    (hrest : ∀ c, rest.head? = some c → isBlank c = false) : trimStart (before ++ rest) = rest := by
  have hgone : trimStart (before ++ rest) = trimStart rest := List.dropWhile_append_of_pos hbefore
  rw [hgone]
  cases rest with
  | nil => rfl
  | cons c cs => exact trimStart_cons (hrest c rfl) cs

/-- The text without the blanks around it. -/
structure Trimmed (cs core : List Char) : Prop where
  surrounded : ∃ before after, cs = before ++ core ++ after ∧ (∀ c ∈ before, isBlank c = true) ∧
    ∀ c ∈ after, isBlank c = true
  head : ∀ c, core.head? = some c → isBlank c = false
  last : ∀ c, core.getLast? = some c → isBlank c = false

theorem trimmed_trim (cs : List Char) : Trimmed cs (trim cs) := by
  obtain ⟨before, hbefore, hblank⟩ := exists_trimStart cs
  obtain ⟨after, hafter, hblank'⟩ := exists_trimStart (trimStart cs).reverse
  have hstart : trimStart cs = trim cs ++ after.reverse := by
    rw [← List.reverse_reverse (trimStart cs), hafter, List.reverse_append]
    rfl
  refine ⟨⟨before, after.reverse, ?_, hblank, ?_⟩, ?_, ?_⟩
  · rw [List.append_assoc, ← hstart]
    exact hbefore
  · intro c hc
    exact hblank' c (List.mem_reverse.mp hc)
  · intro c hc
    have hhead : (trimStart cs).head? = some c := by
      rw [hstart, List.head?_append, hc]
      rfl
    exact isBlank_of_head_trimStart hhead
  · intro c hc
    have hhead : (trimStart (trimStart cs).reverse).head? = some c := by
      rw [← hc, trim, List.getLast?_reverse]
    exact isBlank_of_head_trimStart hhead

theorem trim_eq_iff {cs core : List Char} : trim cs = core ↔ Trimmed cs core := by
  constructor
  · intro h
    rw [← h]
    exact trimmed_trim cs
  · intro h
    obtain ⟨before, after, rfl, hbefore, hafter⟩ := h.surrounded
    have hback : trimStart (core ++ after).reverse = core.reverse := by
      rw [List.reverse_append]
      apply trimStart_append
      · intro c hc
        exact hafter c (List.mem_reverse.mp hc)
      · intro c hc
        exact h.last c (by rwa [List.head?_reverse] at hc)
    rw [List.append_assoc, trim]
    cases core with
    | nil =>
      have hall : trimStart (before ++ after) = [] := by
        rw [← List.append_nil (before ++ after)]
        apply trimStart_append
        · intro c hc
          rcases List.mem_append.mp hc with hc | hc
          · exact hbefore c hc
          · exact hafter c hc
        · simp
      rw [List.nil_append, hall]
      rfl
    | cons c core =>
      have hfront : trimStart (before ++ (c :: core ++ after)) = c :: core ++ after := by
        apply trimStart_append hbefore
        intro d hd
        exact h.head d hd
      rw [hfront, hback, List.reverse_reverse]

end MachineKeeper.Text
