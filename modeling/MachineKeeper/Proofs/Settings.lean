/-
  MachineKeeper.Proofs.Settings — which variables make settings, and which.

  What a number of seconds looks like is said here without the reader (`Written`): blanks, a plus
  sign if one likes, digits with any zeros in front, blanks. The reader takes the digits one by
  one and gives up as soon as the number gets too large. Digits behind only add to it
  (`Text.le_foldl_digits`), so that it gives up is only a matter of the number they all write.

  Proved:
  - `number_eq_ok_iff`: a text is read as a number just if it writes one below 2^64.
  - `number_trim_eq_ok_iff`: so is one with blanks around it.
  - `seconds_eq_ok_iff`, `about_of_seconds`: what comes of one variable.
  - `message_about`: a fault names its variable first.
  - `read_exactly`: which variables make settings, what these are, and whose fault it is if there
    are none.
  - `read_tooLong`: a timeout of 2^63 seconds is taken.
-/

import MachineKeeper.Settings

namespace MachineKeeper

/-- The variable a fault is about. -/
def SettingsFault.about : SettingsFault → String
  | .notSeconds name _ _ => name
  | .zero name => name

theorem SettingsFault.message_about (f : SettingsFault) : ∃ rest, f.message = f.about ++ rest := by
  cases f with
  | notSeconds name given why =>
    exact ⟨" must be a whole number of seconds, got " ++ Text.quoted given, String.append_assoc ..⟩
  | zero name => exact ⟨" must be greater than zero", rfl⟩

namespace Settings

/-! ## Numbers -/

/-- A plus sign if one likes, then digits, at least one. -/
def Numeral (cs : List Char) (n : Nat) : Prop :=
  ∃ ds, (cs = ds ∨ cs = '+' :: ds) ∧ ds ≠ [] ∧ (∀ d ∈ ds, d.isDigit = true) ∧ Text.value ds = n

theorem gatherDigits_eq_ok_iff {cs : List Char} {n m : Nat} (hn : n < UInt64.size) : gatherDigits n cs = .ok m ↔
    (∀ c ∈ cs, c.isDigit = true) ∧ cs.foldl (fun n c => n * 10 + Text.digitValue c) n = m ∧ m < UInt64.size := by
  induction cs generalizing n with
  | nil =>
    simp only [gatherDigits, Except.ok.injEq, List.not_mem_nil, List.foldl_nil]
    constructor
    · intro h
      subst h
      exact ⟨by simp, rfl, hn⟩
    · intro h
      exact h.2.1
  | cons c cs ih =>
    unfold gatherDigits
    by_cases hc : c.isDigit = true
    · by_cases hnext : n * 10 + Text.digitValue c < UInt64.size
      · simp only [hc, hnext, if_true, Bool.not_true, Bool.false_eq_true, if_false, ih hnext, List.forall_mem_cons,
          List.foldl_cons, true_and]
      · -- what is too large stays so, whatever follows
        have hle := Text.le_foldl_digits cs (n * 10 + Text.digitValue c)
        simp only [hc, hnext, Bool.not_true, Bool.false_eq_true, if_false, List.foldl_cons, reduceCtorEq, false_iff]
        intro h
        obtain ⟨-, hvalue, hm⟩ := h
        omega
    · simp [hc]

theorem not_isDigit_plus : '+'.isDigit = false := rfl

theorem numeral_plus_iff {cs : List Char} {n : Nat} :
    Numeral ('+' :: cs) n ↔ cs ≠ [] ∧ (∀ d ∈ cs, d.isDigit = true) ∧ Text.value cs = n := by
  constructor
  · intro h
    obtain ⟨ds, hds | hds, hne, hdigits, hvalue⟩ := h
    · have := hdigits '+' (by simp [← hds])
      simp [not_isDigit_plus] at this
    · obtain ⟨-, rfl⟩ := List.cons.inj hds
      exact ⟨hne, hdigits, hvalue⟩
  · intro h
    exact ⟨cs, .inr rfl, h⟩

theorem numeral_iff {cs : List Char} {n : Nat} (h : cs.head? ≠ some '+') :
    Numeral cs n ↔ cs ≠ [] ∧ (∀ d ∈ cs, d.isDigit = true) ∧ Text.value cs = n := by
  constructor
  · intro hcs
    obtain ⟨ds, rfl | rfl, hds⟩ := hcs
    · exact hds
    · exact absurd rfl h
  · intro hcs
    exact ⟨cs, .inl rfl, hcs⟩

theorem gatherDigits_zero_eq_ok_iff {cs : List Char} {n : Nat} : gatherDigits 0 cs = .ok n ↔
    (∀ c ∈ cs, c.isDigit = true) ∧ Text.value cs = n ∧ n < UInt64.size :=
  gatherDigits_eq_ok_iff (by decide)

theorem number_eq_ok_iff {cs : List Char} {n : Nat} : number cs = .ok n ↔ Numeral cs n ∧ n < UInt64.size := by
  unfold number
  split
  · simp [@numeral_iff [] n (by simp)]
  · simp [numeral_plus_iff]
  · rename_i cs hcs
    have hne : cs ≠ [] := by
      intro h
      exact hcs (by rw [h])
    rw [gatherDigits_zero_eq_ok_iff, numeral_plus_iff]
    simp [hne, and_assoc]
  · rename_i hnil hplus hplus'
    have hne : cs ≠ [] := hnil
    have hhead : cs.head? ≠ some '+' := by
      intro h
      obtain ⟨rest, rfl⟩ := List.head?_eq_some_iff.mp h
      exact hplus' rest rfl
    rw [gatherDigits_zero_eq_ok_iff, numeral_iff hhead]
    simp [hne, and_assoc]

/-! ## With blanks around them -/

/-- The text writes the number, with blanks around it or without. -/
def Written (given : String) (n : Nat) : Prop :=
  ∃ before core after, given.toList = before ++ core ++ after ∧ (∀ c ∈ before, Text.isBlank c = true) ∧
    (∀ c ∈ after, Text.isBlank c = true) ∧ Numeral core n

theorem Numeral.isBlank {core : List Char} {n : Nat} (h : Numeral core n) {c : Char} (hc : c ∈ core) :
    Text.isBlank c = false := by
  obtain ⟨ds, rfl | rfl, -, hdigits, -⟩ := h
  · exact Text.isBlank_of_isDigit (hdigits c hc)
  · rcases List.mem_cons.mp hc with rfl | hc
    · decide
    · exact Text.isBlank_of_isDigit (hdigits c hc)

theorem number_trim_eq_ok_iff {given : String} {n : Nat} :
    number (Text.trim given.toList) = .ok n ↔ Written given n ∧ n < UInt64.size := by
  rw [number_eq_ok_iff]
  constructor
  · intro h
    obtain ⟨hnumeral, hn⟩ := h
    obtain ⟨before, after, hgiven, hbefore, hafter⟩ := (Text.trimmed_trim given.toList).surrounded
    exact ⟨⟨before, _, after, hgiven, hbefore, hafter, hnumeral⟩, hn⟩
  · intro h
    obtain ⟨⟨before, core, after, hgiven, hbefore, hafter, hnumeral⟩, hn⟩ := h
    have htrim : Text.trim given.toList = core := by
      rw [Text.trim_eq_iff]
      refine ⟨⟨before, after, hgiven, hbefore, hafter⟩, ?_, ?_⟩
      · intro c hc
        exact hnumeral.isBlank (List.mem_of_head? hc)
      · intro c hc
        exact hnumeral.isBlank (List.mem_of_getLast? hc)
    rw [htrim]
    exact ⟨hnumeral, hn⟩

/-- A text writes no two numbers. -/
theorem Written.unique {given : String} {n m : Nat} (hn : Written given n) (hm : Written given m) (hlt : n < UInt64.size)
    (hlt' : m < UInt64.size) : n = m := by
  have hnumber := number_trim_eq_ok_iff.mpr ⟨hn, hlt⟩
  have hnumber' := number_trim_eq_ok_iff.mpr ⟨hm, hlt'⟩
  rw [hnumber] at hnumber'
  exact Except.ok.inj hnumber'

theorem written_digits (n : Nat) {before after : List Char} (hbefore : ∀ c ∈ before, Text.isBlank c = true)
    (hafter : ∀ c ∈ after, Text.isBlank c = true) :
    Written (String.ofList (before ++ Text.digits n ++ after)) n := by
  refine ⟨before, Text.digits n, after, String.toList_ofList, hbefore, hafter, ?_⟩
  refine ⟨Text.digits n, .inl rfl, Text.digits_ne_nil n, ?_, Text.value_digits n⟩
  intro d hd
  exact Text.isDigit_of_mem_digits hd

/-! ## One variable -/

variable {lookup : String → Option String} {name : String}

/-- The variable is not set, or to a number of seconds that will do. -/
def Accepts (lookup : String → Option String) (name : String) : Prop :=
  lookup name = none ∨ ∃ given n, lookup name = some given ∧ Written given n ∧ 1 ≤ n ∧ n < UInt64.size

/-- The seconds the variable stands for: those it is set to, or else the default. -/
def Says (lookup : String → Option String) (name : String) (default seconds : Nat) : Prop :=
  (lookup name = none ∧ seconds = default) ∨ ∃ given, lookup name = some given ∧ Written given seconds ∧ 1 ≤ seconds

theorem seconds_eq_ok_iff {default v : UInt64} :
    seconds lookup name default = .ok v ↔ Says lookup name default.toNat v.toNat := by
  unfold seconds Says
  cases hlookup : lookup name with
  | none => simp [UInt64.toNat_inj, eq_comm]
  | some given =>
    simp only [reduceCtorEq, false_and, false_or, Option.some.injEq, exists_eq_left']
    cases hnumber : number (Text.trim given.toList) with
    | error why =>
      simp only [reduceCtorEq, false_iff]
      intro h
      have := number_trim_eq_ok_iff.mpr ⟨h.1, v.toNat_lt⟩
      simp [hnumber] at this
    | ok n =>
      obtain ⟨hn, hlt⟩ := number_trim_eq_ok_iff.mp hnumber
      have hunique : Written given v.toNat → n = v.toNat := fun h => hn.unique h hlt v.toNat_lt
      cases n with
      | zero =>
        simp only [reduceCtorEq, false_iff]
        intro h
        have := hunique h.1
        omega
      | succ n =>
        simp only [Except.ok.injEq]
        constructor
        · intro h
          have hv : v.toNat = n + 1 := by
            rw [← h, UInt64.toNat_ofNat_of_lt' hlt]
          rw [hv]
          exact ⟨hn, Nat.succ_pos n⟩
        · intro h
          rw [hunique h.1, UInt64.ofNat_toNat]

theorem about_of_seconds {default : UInt64} {f : SettingsFault} (h : seconds lookup name default = .error f) :
    f.about = name := by
  unfold seconds at h
  split at h
  · cases h
  · split at h <;> cases h <;> rfl

theorem Says.accepts {default : Nat} {v : UInt64} (h : Says lookup name default v.toNat) : Accepts lookup name := by
  rcases h with ⟨hnone, -⟩ | ⟨given, hgiven, hwritten, hpos⟩
  · exact .inl hnone
  · exact .inr ⟨given, v.toNat, hgiven, hwritten, hpos, v.toNat_lt⟩

theorem Says.eq_of_written {default n : Nat} {v : UInt64} {given : String} (h : Says lookup name default v.toNat)
    (hgiven : lookup name = some given) (hwritten : Written given n) (hlt : n < UInt64.size) : v.toNat = n := by
  rcases h with ⟨hnone, -⟩ | ⟨given', hgiven', hwritten', -⟩
  · simp [hnone] at hgiven
  · rw [hgiven] at hgiven'
    cases hgiven'
    exact hwritten'.unique hwritten v.toNat_lt hlt

theorem exists_seconds_iff {default : UInt64} :
    (∃ v, seconds lookup name default = .ok v) ↔ Accepts lookup name := by
  constructor
  · intro h
    obtain ⟨v, hv⟩ := h
    exact (seconds_eq_ok_iff.mp hv).accepts
  · intro h
    rcases h with hnone | ⟨given, n, hgiven, hwritten, hpos, hlt⟩
    · exact ⟨default, seconds_eq_ok_iff.mpr (.inl ⟨hnone, rfl⟩)⟩
    · have hn : (UInt64.ofNat n).toNat = n := UInt64.toNat_ofNat_of_lt' hlt
      refine ⟨UInt64.ofNat n, seconds_eq_ok_iff.mpr (.inr ⟨given, hgiven, ?_⟩)⟩
      rw [hn]
      exact ⟨hwritten, hpos⟩

/-- A variable that is not accepted is complained about. -/
theorem seconds_of_not_accepts {default : UInt64} (h : ¬Accepts lookup name) :
    ∃ f, seconds lookup name default = .error f ∧ f.about = name := by
  cases hseconds : seconds lookup name default with
  | ok v => exact absurd (exists_seconds_iff.mp ⟨v, hseconds⟩) h
  | error f => exact ⟨f, rfl, about_of_seconds hseconds⟩

/-- What the variable is set to, or the default if it is not set or empty. -/
def OrDefault (lookup : String → Option String) (name default value : String) : Prop :=
  (lookup name = none ∨ lookup name = some "") ∧ value = default ∨ lookup name = some value ∧ value ≠ ""

theorem nonempty_eq_iff {default value : String} :
    nonempty lookup name default = value ↔ OrDefault lookup name default value := by
  unfold nonempty OrDefault
  cases lookup name with
  | none => simp [eq_comm]
  | some given =>
    by_cases h : given = ""
    · subst h
      have hempty : (some "").filter (· ≠ "") = none := by decide
      rw [hempty]
      grind
    · simp only [Option.filter_some, decide_eq_true_eq, h, ne_eq, not_false_eq_true, if_true, Option.getD_some]
      grind

/-! ## All of them -/

def resyncVariable : String := "CAPI_INCUS_RESYNC_INTERVAL"

def timeoutVariable : String := "CAPI_INCUS_RECONCILE_TIMEOUT"

/-- The settings that the variables stand for. -/
structure Reads (lookup : String → Option String) (s : Settings) : Prop where
  resync : Says lookup resyncVariable 30 s.resyncInterval.toNat
  timeout : Says lookup timeoutVariable 600 s.reconcileTimeout.toNat
  socket : OrDefault lookup "INCUS_SOCKET" "/var/lib/incus/unix.socket" s.socketPath
  dataDir : OrDefault lookup "CAPI_INCUS_DATA_DIR" "/var/lib/capi-incus" s.dataDir
  logLevel : s.logLevel = (lookup "CAPI_INCUS_LOG_LEVEL").getD "info"

theorem read_eq_ok_iff {s : Settings} : read lookup = .ok s ↔ Reads lookup s := by
  have hresync : ∀ v, seconds lookup resyncVariable defaultResyncInterval = .ok v ↔
    Says lookup resyncVariable 30 v.toNat := fun v => seconds_eq_ok_iff
  have htimeout : ∀ v, seconds lookup timeoutVariable defaultReconcileTimeout = .ok v ↔
    Says lookup timeoutVariable 600 v.toNat := fun v => seconds_eq_ok_iff
  unfold resyncVariable at hresync
  unfold timeoutVariable at htimeout
  constructor
  · intro h
    unfold read at h
    cases hr : seconds lookup "CAPI_INCUS_RESYNC_INTERVAL" defaultResyncInterval with
    | error f => simp [hr, bind, Except.bind] at h
    | ok r =>
      cases ht : seconds lookup "CAPI_INCUS_RECONCILE_TIMEOUT" defaultReconcileTimeout with
      | error f => simp [hr, ht, bind, Except.bind] at h
      | ok t =>
        simp only [hr, ht, bind, Except.bind, Except.ok.injEq] at h
        subst h
        exact ⟨(hresync r).mp hr, (htimeout t).mp ht, nonempty_eq_iff.mp rfl, nonempty_eq_iff.mp rfl, rfl⟩
  · intro h
    have hr := (hresync _).mpr h.resync
    have ht := (htimeout _).mpr h.timeout
    have hsocket := nonempty_eq_iff.mpr h.socket
    have hdata := nonempty_eq_iff.mpr h.dataDir
    simp only [read, hr, ht, bind, Except.bind, defaultSocketPath, defaultDataDir, defaultLogLevel, hsocket, hdata,
      ← h.logLevel]

theorem exists_read_iff : (∃ s, read lookup = .ok s) ↔ Accepts lookup resyncVariable ∧ Accepts lookup timeoutVariable := by
  constructor
  · intro h
    obtain ⟨s, hs⟩ := h
    have hreads := read_eq_ok_iff.mp hs
    exact ⟨hreads.resync.accepts, hreads.timeout.accepts⟩
  · intro h
    obtain ⟨resync, hresync⟩ : ∃ v, seconds lookup resyncVariable defaultResyncInterval = .ok v := exists_seconds_iff.mpr h.1
    obtain ⟨timeout, htimeout⟩ : ∃ v, seconds lookup timeoutVariable defaultReconcileTimeout = .ok v :=
      exists_seconds_iff.mpr h.2
    let s : Settings := ⟨nonempty lookup "INCUS_SOCKET" defaultSocketPath, nonempty lookup "CAPI_INCUS_DATA_DIR" defaultDataDir,
      resync, timeout, (lookup "CAPI_INCUS_LOG_LEVEL").getD defaultLogLevel⟩
    refine ⟨s, read_eq_ok_iff.mpr ?_⟩
    exact ⟨seconds_eq_ok_iff.mp hresync, seconds_eq_ok_iff.mp htimeout, nonempty_eq_iff.mp rfl, nonempty_eq_iff.mp rfl, rfl⟩

/-- The resync interval is complained about, whatever the timeout is. -/
theorem read_of_not_resync (h : ¬Accepts lookup resyncVariable) :
    ∃ f, read lookup = .error f ∧ f.about = resyncVariable := by
  obtain ⟨f, hf, habout⟩ : ∃ f, seconds lookup resyncVariable defaultResyncInterval = .error f ∧ f.about = resyncVariable :=
    seconds_of_not_accepts h
  unfold resyncVariable at hf
  exact ⟨f, by simp [read, hf, bind, Except.bind], habout⟩

theorem read_of_not_timeout (h : Accepts lookup resyncVariable) (h' : ¬Accepts lookup timeoutVariable) :
    ∃ f, read lookup = .error f ∧ f.about = timeoutVariable := by
  obtain ⟨v, hv⟩ : ∃ v, seconds lookup resyncVariable defaultResyncInterval = .ok v := exists_seconds_iff.mpr h
  obtain ⟨f, hf, habout⟩ : ∃ f, seconds lookup timeoutVariable defaultReconcileTimeout = .error f ∧ f.about = timeoutVariable :=
    seconds_of_not_accepts h'
  unfold resyncVariable at hv
  unfold timeoutVariable at hf
  exact ⟨f, by simp [read, hv, hf, bind, Except.bind], habout⟩

/-- **Settings are read just if each interval is not set or is blanks, a plus sign if one likes, digits and blanks, for a
number from 1 to 2^64 - 1; they are then what the variables say, and if not, the first bad interval is complained
about.** A number written in decimal is read as that number, whatever blanks stand around it. -/
theorem read_exactly (lookup : String → Option String) :
    ((∃ s, read lookup = .ok s) ↔ Accepts lookup resyncVariable ∧ Accepts lookup timeoutVariable) ∧
    (∀ s, read lookup = .ok s ↔ Reads lookup s) ∧
    (¬Accepts lookup resyncVariable → ∃ f, read lookup = .error f ∧ f.about = resyncVariable) ∧
    (Accepts lookup resyncVariable → ¬Accepts lookup timeoutVariable →
      ∃ f, read lookup = .error f ∧ f.about = timeoutVariable) ∧
    ∀ n before after, 1 ≤ n → n < UInt64.size → (∀ c ∈ before, Text.isBlank c = true) → (∀ c ∈ after, Text.isBlank c = true) →
      let given := String.ofList (before ++ Text.digits n ++ after)
      (lookup resyncVariable = some given → Accepts lookup timeoutVariable →
        ∃ s, read lookup = .ok s ∧ s.resyncInterval.toNat = n) ∧
      (lookup timeoutVariable = some given → Accepts lookup resyncVariable →
        ∃ s, read lookup = .ok s ∧ s.reconcileTimeout.toNat = n) := by
  refine ⟨exists_read_iff, fun s => read_eq_ok_iff, read_of_not_resync, read_of_not_timeout, ?_⟩
  intro n before after hpos hlt hbefore hafter given
  have hwritten : Written given n := written_digits n hbefore hafter
  have haccepts : ∀ name, lookup name = some given → Accepts lookup name :=
    fun name h => .inr ⟨given, n, h, hwritten, hpos, hlt⟩
  constructor
  · intro h hother
    obtain ⟨s, hs⟩ := exists_read_iff.mpr ⟨haccepts _ h, hother⟩
    exact ⟨s, hs, (read_eq_ok_iff.mp hs).resync.eq_of_written h hwritten hlt⟩
  · intro h hother
    obtain ⟨s, hs⟩ := exists_read_iff.mpr ⟨hother, haccepts _ h⟩
    exact ⟨s, hs, (read_eq_ok_iff.mp hs).timeout.eq_of_written h hwritten hlt⟩

example : read (fun name => if name = resyncVariable then some "\u00a0+007\u2003" else if name = "INCUS_SOCKET" then some ""
      else none) = .ok ⟨"/var/lib/incus/unix.socket", "/var/lib/capi-incus", 7, 600, "info"⟩ := by
  rfl

/-! ## A timeout of any length -/

/-- The milliseconds that one reconcile may take. -/
def timeout (s : Settings) : Nat := 1000 * s.reconcileTimeout.toNat

/-- Sets the timeout to 2^63 seconds. -/
def tooLong (name : String) : Option String :=
  if name = timeoutVariable then some "9223372036854775808" else none

theorem read_tooLong : read tooLong =
    .ok ⟨"/var/lib/incus/unix.socket", "/var/lib/capi-incus", 30, 9223372036854775808, "info"⟩ := rfl

end Settings

end MachineKeeper
