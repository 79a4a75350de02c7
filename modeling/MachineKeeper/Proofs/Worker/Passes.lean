/-
  MachineKeeper.Proofs.Worker.Passes — the passes that a run of the worker makes.

  A run says how it ends and nothing about its passes. `passes` takes the same turns and lists
  them instead: when each was due, when it began and ended, and the states around it. That these
  are the passes of the run shows in a run whose passes are noted down (`run_noting`).

  Which of the two goes first where a pass and a look are both due is asked anew at each turn, so
  what a run has done so far is the same whatever is answered later (`passes_congr`).

  Where no pass ends before it begins, passes come one after the other (`passes_apart`), and when
  the run stops all of them have ended (`ended_of_stopped`).
-/

import MachineKeeper.Worker.Resync

namespace MachineKeeper.Resync

variable {σ : Type} {interval : Nat} {limit : Instant} {shutdown : σ → Signal}
  {pass : Instant → σ → Option Instant × σ} {picks : Nat → Bool}

structure Passed (σ : Type) where
  due : Instant
  began : Instant
  /-- If it ended. -/
  ended : Option Instant
  before : σ
  after : σ

/-- When the one after it is due. -/
def Passed.nextDue (interval : Nat) (p : Passed σ) : Instant := Resync.nextDue interval p.due p.began

/-- The passes of a run, in order. -/
def passes (interval limit : Nat) (shutdown : σ → Signal) (pass : Instant → σ → Option Instant × σ)
    (picks : Nat → Bool) : Nat → Nat → Instant → Instant → σ → List (Passed σ)
  | 0, _, _, _, _ => []
  | fuel + 1, seen, due, now, s =>
    match turn (shutdown s) seen due now (picks fuel) with
    | .pass t =>
      if limit ≤ t then []
      else match pass t s with
        | (none, s') => [⟨due, t, none, s, s'⟩]
        | (some ended, s') =>
          ⟨due, t, some ended, s, s'⟩ ::
            passes interval limit shutdown pass picks fuel seen (nextDue interval due t) ended s'
    | .look t =>
      if limit ≤ t then []
      else if (shutdown s).valueAt t then []
      else passes interval limit shutdown pass picks fuel (sentBy (shutdown s) t) due t s

/-! ## One turn at a time -/

section

variable {fuel seen : Nat} {due now t ended : Instant} {s s' : σ}

theorem passes_of_pass (hturn : turn (shutdown s) seen due now (picks fuel) = .pass t) (hlimit : ¬limit ≤ t)
    (hpass : pass t s = (some ended, s')) :
    passes interval limit shutdown pass picks (fuel + 1) seen due now s =
      ⟨due, t, some ended, s, s'⟩ ::
        passes interval limit shutdown pass picks fuel seen (nextDue interval due t) ended s' := by
  simp only [passes, hturn, if_neg hlimit, hpass]

theorem passes_of_look (hturn : turn (shutdown s) seen due now (picks fuel) = .look t) (hlimit : ¬limit ≤ t)
    (hset : ¬(shutdown s).valueAt t = true) :
    passes interval limit shutdown pass picks (fuel + 1) seen due now s =
      passes interval limit shutdown pass picks fuel (sentBy (shutdown s) t) due t s := by
  simp only [passes, hturn, if_neg hlimit, if_neg hset]

theorem run_of_pass (hturn : turn (shutdown s) seen due now (picks fuel) = .pass t) (hlimit : ¬limit ≤ t)
    (hpass : pass t s = (some ended, s')) :
    run interval limit shutdown pass picks (fuel + 1) seen due now s =
      run interval limit shutdown pass picks fuel seen (nextDue interval due t) ended s' := by
  simp only [run, hturn, if_neg hlimit, hpass]

theorem run_of_look (hturn : turn (shutdown s) seen due now (picks fuel) = .look t) (hlimit : ¬limit ≤ t)
    (hset : ¬(shutdown s).valueAt t = true) :
    run interval limit shutdown pass picks (fuel + 1) seen due now s =
      run interval limit shutdown pass picks fuel (sentBy (shutdown s) t) due t s := by
  simp only [run, hturn, if_neg hlimit, if_neg hset]

end

/-! ## They are the passes of the run -/

def End.map {τ : Type} (f : σ → τ) : End σ → End τ
  | .stopped s t => .stopped (f s) t
  | .stuck s => .stuck (f s)
  | .unfinished s => .unfinished (f s)

/-- The pass, with a note in the state of when it begins. -/
def noting (pass : Instant → σ → Option Instant × σ) (t : Instant) (s : σ × List Instant) :
    Option Instant × (σ × List Instant) :=
  ((pass t s.1).1, ((pass t s.1).2, s.2 ++ [t]))

/-- With its passes noted a run is the same, and the notes are of the passes listed. -/
theorem run_noting (fuel seen : Nat) (due now : Instant) (s : σ) (notes : List Instant) :
    run interval limit (fun s => shutdown s.1) (noting pass) picks fuel seen due now (s, notes) =
      (run interval limit shutdown pass picks fuel seen due now s).map fun s' =>
        (s', notes ++ (passes interval limit shutdown pass picks fuel seen due now s).map (·.began)) := by
  induction fuel generalizing seen due now s notes with
  | zero => simp [run, passes, End.map]
  | succ fuel ih =>
    simp only [run, passes]
    cases turn (shutdown s) seen due now (picks fuel) with
    | pass t =>
      by_cases hlimit : limit ≤ t
      · simp [hlimit, End.map]
      · simp only [hlimit, if_false, noting]
        obtain ⟨ended, s'⟩ := pass t s
        cases ended with
        | none => simp [End.map]
        | some ended => simp [ih]
    | look t =>
      by_cases hlimit : limit ≤ t
      · simp [hlimit, End.map]
      · by_cases hset : (shutdown s).valueAt t = true
        · simp [hlimit, hset, End.map]
        · simp only [hlimit, hset, if_false]
          exact ih (sentBy (shutdown s) t) due t s notes

/-- Each was made as the run makes its passes. -/
theorem pass_of_mem_passes {fuel seen : Nat} {due now : Instant} {s : σ} {p : Passed σ}
    (hp : p ∈ passes interval limit shutdown pass picks fuel seen due now s) :
    pass p.began p.before = (p.ended, p.after) := by
  fun_induction passes interval limit shutdown pass picks fuel seen due now s with
  | case1 | case2 | case5 | case6 => cases hp
  | case3 _ _ _ _ _ _ _ _ _ hpass =>
    cases List.mem_singleton.mp hp
    exact hpass
  | case4 _ _ _ _ _ _ _ _ _ _ hpass ih =>
    rcases List.mem_cons.mp hp with rfl | hp
    · exact hpass
    · exact ih hp
  | case7 _ _ _ _ _ _ _ _ _ ih => exact ih hp

/-- With so much fuel left, later answers are of no account. -/
theorem passes_congr {picks' : Nat → Bool} {fuel : Nat} (h : ∀ n < fuel, picks n = picks' n) (seen : Nat)
    (due now : Instant) (s : σ) :
    passes interval limit shutdown pass picks fuel seen due now s =
      passes interval limit shutdown pass picks' fuel seen due now s := by
  induction fuel generalizing seen due now s with
  | zero => rfl
  | succ fuel ih =>
    have hrest := ih fun n hn => h n (Nat.lt_succ_of_lt hn)
    simp only [passes, h fuel (Nat.lt_succ_self fuel), hrest]

/-! ## One after the other -/

def Turn.time : Turn → Instant
  | .pass t | .look t => t

theorem le_of_turn {signal : Signal} {seen : Nat} {due now : Instant} {passFirst : Bool} {next : Turn}
    (h : turn signal seen due now passFirst = next) : now ≤ next.time := by
  have hmax : ∀ t : Instant, now ≤ max now t := fun t => Nat.le_max_left now t
  subst h
  unfold turn
  split
  · exact hmax due
  · dsimp only
    split
    · exact hmax due
    · split
      · exact hmax _
      · split
        · exact hmax due
        · exact hmax _

section

variable {fuel seen : Nat} {due now : Instant} {s : σ}

/-- The next pass begins when the one before has ended. -/
theorem passes_apart (hforward : ∀ t s ended, (pass t s).1 = some ended → t ≤ ended) :
    (∀ p ∈ passes interval limit shutdown pass picks fuel seen due now s, now ≤ p.began) ∧
      (passes interval limit shutdown pass picks fuel seen due now s).Pairwise fun p q =>
        ∃ ended, p.ended = some ended ∧ ended ≤ q.began := by
  fun_induction passes interval limit shutdown pass picks fuel seen due now s with
  | case1 | case2 | case5 | case6 => exact ⟨fun _ hp => (nomatch hp), .nil⟩
  | case3 fuel seen due now s t hturn hlimit s' hpass =>
    exact ⟨List.forall_mem_singleton.mpr (le_of_turn hturn), List.pairwise_singleton _ _⟩
  | case4 fuel seen due now s t hturn hlimit ended s' hpass ih =>
    have hle : now ≤ t := le_of_turn hturn
    have hended : t ≤ ended := hforward t s ended (by rw [hpass])
    obtain ⟨hlater, hapart⟩ := ih
    refine ⟨List.forall_mem_cons.mpr ⟨hle, fun p hp => ?_⟩, List.pairwise_cons.mpr ⟨fun q hq => ?_, hapart⟩⟩
    · exact Nat.le_trans hle (Nat.le_trans hended (hlater p hp))
    · exact ⟨ended, rfl, hlater q hq⟩
  | case7 fuel seen due now s t hturn hlimit hset ih =>
    have hle : now ≤ t := le_of_turn hturn
    exact ⟨fun p hp => Nat.le_trans hle (ih.1 p hp), ih.2⟩

/-- What a pass that ends keeps holds whenever one begins. -/
theorem passes_keep {P : σ → Prop} (hkeeps : ∀ t s ended, (pass t s).1 = some ended → P s → P (pass t s).2) (h : P s) :
    ∀ p ∈ passes interval limit shutdown pass picks fuel seen due now s, P p.before := by
  fun_induction passes interval limit shutdown pass picks fuel seen due now s with
  | case1 | case2 | case5 | case6 => exact fun p hp => by cases hp
  | case3 => exact List.forall_mem_singleton.mpr h
  | case4 fuel seen due now s t hturn hlimit ended s' hpass ih =>
    have hnext := hkeeps t s ended (by rw [hpass]) h
    rw [hpass] at hnext
    exact List.forall_mem_cons.mpr ⟨h, ih hnext⟩
  | case7 _ _ _ _ _ _ _ _ _ ih => exact ih h

/-- A run that stops has no pass that is still under way. -/
theorem ended_of_stopped (hforward : ∀ t s ended, (pass t s).1 = some ended → t ≤ ended) {s' : σ} {stop : Instant}
    (h : run interval limit shutdown pass picks fuel seen due now s = .stopped s' stop) :
    now ≤ stop ∧ ∀ p ∈ passes interval limit shutdown pass picks fuel seen due now s,
      ∃ ended, p.ended = some ended ∧ ended ≤ stop := by
  fun_induction passes interval limit shutdown pass picks fuel seen due now s with
  | case1 => cases h
  | case2 fuel seen due now s t hturn hlimit =>
    rw [run, hturn] at h
    simp only [if_pos hlimit] at h
    cases h
  | case3 fuel seen due now s t hturn hlimit s' hpass =>
    rw [run, hturn] at h
    simp only [if_neg hlimit, hpass] at h
    cases h
  | case4 fuel seen due now s t hturn hlimit ended s' hpass ih =>
    have hle : now ≤ t := le_of_turn hturn
    have hended : t ≤ ended := hforward t s ended (by rw [hpass])
    rw [run_of_pass hturn hlimit hpass] at h
    obtain ⟨hstop, hrest⟩ := ih h
    exact ⟨Nat.le_trans hle (Nat.le_trans hended hstop), List.forall_mem_cons.mpr ⟨⟨ended, rfl, hstop⟩, hrest⟩⟩
  | case5 fuel seen due now s t hturn hlimit =>
    rw [run, hturn] at h
    simp only [if_pos hlimit] at h
    cases h
  | case6 fuel seen due now s t hturn hlimit hset =>
    rw [run, hturn] at h
    simp only [if_neg hlimit, hset, if_true] at h
    cases h
    exact ⟨le_of_turn hturn, fun _ hp => (nomatch hp)⟩
  | case7 fuel seen due now s t hturn hlimit hset ih =>
    rw [run_of_look hturn hlimit hset] at h
    obtain ⟨hstop, hrest⟩ := ih h
    exact ⟨Nat.le_trans (le_of_turn hturn) hstop, hrest⟩

end

end MachineKeeper.Resync
