/-
  MachineKeeper.Proofs.Worker.Shutdown — what a run of the worker does once it is told to stop.

  Between passes the worker waits for the next one to be due and for the shutdown signal, and
  where both are there it may go either way. So the order to stop is certain to be followed at
  once only if the next pass is not due when it is looked for. A pass that is under way when the
  order comes and goes on until the next one is due makes both ready, and then the worker may
  begin another pass after the order, and yet another if that one takes as long.

  A pass may do what it likes and take any time. It leaves the signal alone, which is the
  caller's (`StopsAt`: some value is sent at that instant, and the signal is set from then on).

  Proved:
  - `turn_of_stop_le`: after the order the next turn comes at once, and is a pass if one is due
    and goes first.
  - `began_le`: no pass begins after the order in a run of which no pass overruns it, or which
    always looks first.
  - `begins_late`: behind a pass that overruns it, another one can begin.
  - `ends_with`: a pass that does not overrun it is the last, and the run stops with it if it has a turn
    left.
  - `stops_iff`: so no run begins a pass after the order if and only if no run has a pass that
    overruns it.
  - `overrun_begins_another`: a run that is told to stop at 5 and begins a pass at 25.
-/

import Mathlib.Logic.Function.Basic
import MachineKeeper.Proofs.Worker.Passes

namespace MachineKeeper.Resync

variable {σ : Type} {interval : Nat} {limit : Instant} {shutdown : σ → Signal}
  {pass : Instant → σ → Option Instant × σ} {picks : Nat → Bool} {signal : Signal} {stop : Instant}

/-! ## The order to stop -/

/-- Values are sent in the order of time, one of them at that instant, and the signal is set from
then on. -/
structure StopsAt (signal : Signal) (stop : Instant) : Prop where
  ordered : (sends signal).Pairwise (· ≤ ·)
  sent : stop ∈ sends signal
  set : ∀ t, stop ≤ t → signal.valueAt t = true

/-- Whoever has seen so many values has not seen the one of that instant. -/
def Unseen (signal : Signal) (stop : Instant) (seen : Nat) : Prop := seen ≤ (sends signal).countP (· < stop)

theorem getElem?_le_of_countP {ts : List Instant} (hordered : ts.Pairwise (· ≤ ·)) (hstop : stop ∈ ts) {n : Nat}
    (hn : n ≤ ts.countP (· < stop)) : ∃ t ≤ stop, ts[n]? = some t := by
  induction ts generalizing n with
  | nil => cases hstop
  | cons t ts ih =>
    obtain ⟨hhead, htail⟩ := List.pairwise_cons.mp hordered
    have hle : t ≤ stop := by
      rcases List.mem_cons.mp hstop with rfl | hmem
      · exact Nat.le_refl _
      · exact hhead stop hmem
    cases n with
    | zero => exact ⟨t, hle, rfl⟩
    | succ n =>
      by_cases hlt : t < stop
      · rw [List.countP_cons_of_pos (by simpa using hlt)] at hn
        have hmem : stop ∈ ts := (List.mem_cons.mp hstop).resolve_left (Nat.ne_of_gt hlt)
        exact ih htail hmem (Nat.le_of_succ_le_succ hn)
      · -- then none of them comes before
        have hnone : (t :: ts).countP (· < stop) = 0 := by
          rw [List.countP_eq_zero]
          intro t' ht'
          have : t ≤ t' := by
            rcases List.mem_cons.mp ht' with rfl | hmem
            · exact Nat.le_refl _
            · exact hhead t' hmem
          simpa using Nat.le_trans (Nat.le_of_not_lt hlt) this
        rw [hnone] at hn
        exact absurd hn (Nat.not_succ_le_zero n)

theorem StopsAt.nextSend? (h : StopsAt signal stop) {seen : Nat} (hseen : Unseen signal stop seen) :
    ∃ send ≤ stop, Resync.nextSend? signal seen = some send :=
  getElem?_le_of_countP h.ordered h.sent hseen

theorem unseen_zero : Unseen signal stop 0 := Nat.zero_le _

theorem unseen_sentBy {t : Instant} (ht : t < stop) : Unseen signal stop (sentBy signal t) := by
  refine List.countP_mono_left fun send _ hsend => ?_
  rw [decide_eq_true_eq] at hsend ⊢
  exact Nat.lt_of_le_of_lt hsend ht

/-! ## One turn -/

/-- Whoever waits for the order does not wait for longer. -/
theorem turn_le (h : StopsAt signal stop) {seen : Nat} (hseen : Unseen signal stop seen) {due now : Instant}
    (hnow : now ≤ stop) (passFirst : Bool) : (turn signal seen due now passFirst).time ≤ stop := by
  obtain ⟨send, hsend, hnext⟩ := h.nextSend? hseen
  have hlook : max now send ≤ stop := Nat.max_le.mpr ⟨hnow, hsend⟩
  simp only [turn, hnext]
  split
  · next hlt => exact Nat.le_of_lt (Nat.lt_of_lt_of_le hlt hlook)
  · split
    · exact hlook
    · next hle _ =>
      split
      · exact Nat.le_trans (Nat.le_of_not_lt ‹_›) hlook
      · exact hlook

/-- After the order both waits are over as soon as they begin, but for a pass that is not due. -/
theorem turn_of_stop_le (h : StopsAt signal stop) {seen : Nat} (hseen : Unseen signal stop seen) {due now : Instant}
    (hnow : stop ≤ now) (passFirst : Bool) :
    turn signal seen due now passFirst = if due ≤ now ∧ passFirst = true then .pass now else .look now := by
  obtain ⟨send, hsend, hnext⟩ := h.nextSend? hseen
  have hlook : max now send = now := Nat.max_eq_left (Nat.le_trans hsend hnow)
  simp only [turn, hnext, hlook]
  by_cases hdue : due ≤ now
  · have hpass : max now due = now := Nat.max_eq_left hdue
    rw [hpass]
    cases passFirst <;> simp [hdue]
  · have hlt : now < due := Nat.lt_of_not_le hdue
    have hpass : max now due = due := Nat.max_eq_right (Nat.le_of_lt hlt)
    simp [hpass, hdue, hlt, Nat.lt_asymm hlt]

/-- A pass that comes after the order is due after it, and goes first. -/
theorem pass_le (h : StopsAt signal stop) {seen : Nat} (hseen : Unseen signal stop seen) {due now t : Instant}
    {passFirst : Bool} (hturn : turn signal seen due now passFirst = .pass t) (hlimit : ¬limit ≤ t)
    (hnow : now ≤ stop ∨ limit ≤ now ∨ now < due ∨ passFirst = false) : t ≤ stop := by
  by_cases hle : now ≤ stop
  · have htime : (turn signal seen due now passFirst).time ≤ stop := turn_le h hseen hle passFirst
    rwa [hturn] at htime
  · rw [turn_of_stop_le h hseen (Nat.le_of_lt (Nat.lt_of_not_le hle))] at hturn
    split at hturn
    · next hfirst =>
      cases hturn
      rcases hnow with hnow | hnow | hnow | hnow
      · exact hnow
      · exact absurd hnow hlimit
      · exact absurd hfirst.1 (Nat.not_le_of_lt hnow)
      · exact absurd (hnow.symm.trans hfirst.2) Bool.false_ne_true
    · cases hturn

/-! ## A whole run -/

/-- A pass that is under way at that instant and goes on until the next one is due. -/
def Passed.Overruns (interval : Nat) (stop limit : Instant) (p : Passed σ) : Prop :=
  p.began ≤ stop ∧ ∃ ended, p.ended = some ended ∧ stop < ended ∧ ended < limit ∧ p.nextDue interval ≤ ended

section

variable {fuel seen : Nat} {due now : Instant} {s : σ}

/-- No pass begins after the order if none is due after it, or if they do not go first. -/
theorem began_le (hkeeps : ∀ t s, shutdown (pass t s).2 = shutdown s) (h : StopsAt (shutdown s) stop)
    (hseen : Unseen (shutdown s) stop seen)
    (hnow : now ≤ stop ∨ limit ≤ now ∨ now < due ∨ ∀ n, picks n = false)
    (hpasses : ∀ p ∈ passes interval limit shutdown pass picks fuel seen due now s,
      p.Overruns interval stop limit → ∀ n, picks n = false) :
    ∀ p ∈ passes interval limit shutdown pass picks fuel seen due now s, p.began ≤ stop := by
  fun_induction passes interval limit shutdown pass picks fuel seen due now s with
  | case1 | case2 | case5 | case6 =>
    intro p hp
    cases hp
  | case3 fuel seen due now s t hturn hlimit s' hpass =>
    rw [List.forall_mem_singleton]
    exact pass_le h hseen hturn hlimit (hnow.imp_right (Or.imp_right (Or.imp_right fun hnone => hnone fuel)))
  | case4 fuel seen due now s t hturn hlimit ended s' hpass ih =>
    obtain ⟨hhead, htail⟩ := List.forall_mem_cons.mp hpasses
    have htime : t ≤ stop :=
      pass_le h hseen hturn hlimit (hnow.imp_right (Or.imp_right (Or.imp_right fun hnone => hnone fuel)))
    have hsame : shutdown s' = shutdown s := by rw [← hkeeps t s, hpass]
    rw [← hsame] at h hseen
    refine List.forall_mem_cons.mpr ⟨htime, ih h hseen ?_ htail⟩
    by_cases hended : ended ≤ stop
    · exact .inl hended
    · by_cases hover : limit ≤ ended
      · exact .inr (.inl hover)
      · by_cases hdue : ended < nextDue interval due t
        · exact .inr (.inr (.inl hdue))
        · have hoverruns : Passed.Overruns interval stop limit ⟨due, t, some ended, s, s'⟩ :=
            ⟨htime, ended, rfl, Nat.lt_of_not_le hended, Nat.lt_of_not_le hover, Nat.le_of_not_lt hdue⟩
          exact .inr (.inr (.inr (hhead hoverruns)))
  | case7 fuel seen due now s t hturn hlimit hset ih =>
    -- the signal is not set yet, so the order has not been seen
    have hbefore : t < stop := Nat.lt_of_not_le fun hle => hset (h.set t hle)
    exact ih h (unseen_sentBy hbefore) (.inl (Nat.le_of_lt hbefore)) hpasses

/-- Where a pass is due after the order and goes first, it begins. -/
theorem begins_of_due (h : StopsAt (shutdown s) stop) (hseen : Unseen (shutdown s) stop seen) (hnow : stop ≤ now)
    (hdue : due ≤ now) (hlimit : now < limit) (hpick : picks fuel = true) :
    ∃ q ∈ passes interval limit shutdown pass picks (fuel + 1) seen due now s, q.began = now := by
  simp only [passes, turn_of_stop_le h hseen hnow, if_pos (And.intro hdue hpick), if_neg (Nat.not_le_of_lt hlimit)]
  split
  · exact ⟨_, List.mem_singleton_self _, rfl⟩
  · exact ⟨_, List.mem_cons_self, rfl⟩

/-- One more answer changes nothing of what comes after its turn. -/
theorem passes_update (picks : Nat → Bool) (passFirst : Bool) :
    passes interval limit shutdown pass (Function.update picks fuel passFirst) fuel seen due now s =
      passes interval limit shutdown pass picks fuel seen due now s :=
  passes_congr (fun _ hn => Function.update_of_ne (Nat.ne_of_lt hn) _ _) seen due now s

/-- Behind a pass that overruns the order another one can begin. -/
theorem begins_late (hkeeps : ∀ t s, shutdown (pass t s).2 = shutdown s) (h : StopsAt (shutdown s) stop)
    (hseen : Unseen (shutdown s) stop seen) {p : Passed σ}
    (hp : p ∈ passes interval limit shutdown pass picks fuel seen due now s)
    (hoverruns : p.Overruns interval stop limit) :
    ∃ picks', ∃ q ∈ passes interval limit shutdown pass picks' (fuel + 1) seen due now s, stop < q.began := by
  fun_induction passes interval limit shutdown pass picks fuel seen due now s with
  | case1 | case2 | case5 | case6 => cases hp
  | case3 fuel seen due now s t hturn hlimit s' hpass =>
    obtain ⟨-, ended, hended, -⟩ := hoverruns
    cases List.mem_singleton.mp hp
    cases hended
  | case4 fuel seen due now s t hturn hlimit ended s' hpass ih =>
    have hsame : shutdown s' = shutdown s := by rw [← hkeeps t s, hpass]
    rw [← hsame] at h hseen
    -- whatever goes first later, this turn stays as it was
    have hcons : ∀ picks' : Nat → Bool,
        passes interval limit shutdown pass (Function.update picks' (fuel + 1) (picks fuel)) (fuel + 1 + 1) seen due now s =
          ⟨due, t, some ended, s, s'⟩ ::
            passes interval limit shutdown pass picks' (fuel + 1) seen (nextDue interval due t) ended s' := by
      intro picks'
      rw [← Function.update_self (fuel + 1) (picks fuel) picks'] at hturn
      rw [passes_of_pass hturn hlimit hpass, passes_update]
    rcases List.mem_cons.mp hp with rfl | hp
    · obtain ⟨-, _, hended, hstop, hlimit', hdue⟩ := hoverruns
      cases hended
      have hbegins : ∃ q ∈ passes interval limit shutdown pass (fun _ => true) (fuel + 1) seen (nextDue interval due t)
          ended s', q.began = ended := begins_of_due h hseen (Nat.le_of_lt hstop) hdue hlimit' rfl
      obtain ⟨q, hq, hbegan⟩ := hbegins
      refine ⟨Function.update (fun _ => true) (fuel + 1) (picks fuel), q, ?_, ?_⟩
      · rw [hcons]
        exact List.mem_cons_of_mem _ hq
      · rw [hbegan]
        exact hstop
    · obtain ⟨picks', q, hq, hlate⟩ := ih h hseen hp
      refine ⟨Function.update picks' (fuel + 1) (picks fuel), q, ?_, hlate⟩
      rw [hcons]
      exact List.mem_cons_of_mem _ hq
  | case7 fuel seen due now s t hturn hlimit hset ih =>
    have hbefore : t < stop := Nat.lt_of_not_le fun hle => hset (h.set t hle)
    obtain ⟨picks', q, hq, hlate⟩ := ih h (unseen_sentBy hbefore) hp
    refine ⟨Function.update picks' (fuel + 1) (picks fuel), q, ?_, hlate⟩
    rw [← Function.update_self (fuel + 1) (picks fuel) picks'] at hturn
    rwa [passes_of_look hturn hlimit hset, passes_update]

/-- Where no pass is due the worker looks, and stops. -/
theorem stops_at_once (h : StopsAt (shutdown s) stop) (hseen : Unseen (shutdown s) stop seen) (hnow : stop ≤ now)
    (hdue : now < due) (hlimit : now < limit) :
    passes interval limit shutdown pass picks fuel seen due now s = [] ∧
      run interval limit shutdown pass picks fuel seen due now s =
        if fuel = 0 then .unfinished s else .stopped s now := by
  cases fuel with
  | zero => exact ⟨rfl, rfl⟩
  | succ fuel =>
    have hlook : ¬(due ≤ now ∧ picks fuel = true) := fun hpass => Nat.not_le_of_lt hdue hpass.1
    simp [passes, run, turn_of_stop_le h hseen hnow, if_neg hlook, h.set now hnow, Nat.not_le_of_lt hlimit]

/-- A pass that is over after the order and before the next one is due is the last. With one more turn, whatever goes first
there, the run behind it has stopped. -/
theorem ends_with (hkeeps : ∀ t s, shutdown (pass t s).2 = shutdown s) (h : StopsAt (shutdown s) stop)
    (hseen : Unseen (shutdown s) stop seen) {p : Passed σ} {ended : Instant}
    (hp : p ∈ passes interval limit shutdown pass picks fuel seen due now s) (hended : p.ended = some ended)
    (hstop : stop ≤ ended) (hlimit : ended < limit) (hdue : ended < p.nextDue interval) :
    (∃ earlier, passes interval limit shutdown pass picks fuel seen due now s = earlier ++ [p]) ∧
      (run interval limit shutdown pass picks fuel seen due now s = .stopped p.after ended ∨
        run interval limit shutdown pass picks fuel seen due now s = .unfinished p.after) ∧
      ∀ picks', (∀ n, picks' (n + 1) = picks n) →
        run interval limit shutdown pass picks' (fuel + 1) seen due now s = .stopped p.after ended := by
  fun_induction passes interval limit shutdown pass picks fuel seen due now s with
  | case1 | case2 | case5 | case6 => cases hp
  | case3 fuel seen due now s t hturn hlimit s' hpass =>
    cases List.mem_singleton.mp hp
    cases hended
  | case4 fuel seen due now s t hturn ht ended' s' hpass ih =>
    have hsame : shutdown s' = shutdown s := by rw [← hkeeps t s, hpass]
    rw [← hsame] at h hseen
    rw [run_of_pass hturn ht hpass]
    rcases List.mem_cons.mp hp with rfl | hp
    · cases hended
      have hnone : passes interval limit shutdown pass picks fuel seen (nextDue interval due t) ended s' = [] ∧ _ :=
        stops_at_once h hseen hstop hdue hlimit
      rw [hnone.1, hnone.2]
      refine ⟨⟨[], rfl⟩, ?_, ?_⟩
      · split
        · exact .inr rfl
        · exact .inl rfl
      · intro picks' hpicks
        have hstopped : _ ∧ run interval limit shutdown pass picks' (fuel + 1) seen (nextDue interval due t) ended s' = _ :=
          stops_at_once h hseen hstop hdue hlimit
        rw [← hpicks] at hturn
        rw [run_of_pass hturn ht hpass, hstopped.2, if_neg (Nat.succ_ne_zero fuel)]
    · obtain ⟨⟨earlier, hlast⟩, hends, hstopped⟩ := ih h hseen hp
      refine ⟨⟨_ :: earlier, by rw [hlast]; rfl⟩, hends, ?_⟩
      intro picks' hpicks
      rw [← hpicks] at hturn
      rw [run_of_pass hturn ht hpass]
      exact hstopped picks' hpicks
  | case7 fuel seen due now s t hturn ht hset ih =>
    have hbefore : t < stop := Nat.lt_of_not_le fun hle => hset (h.set t hle)
    rw [run_of_look hturn ht hset]
    obtain ⟨hlast, hends, hstopped⟩ := ih h (unseen_sentBy hbefore) hp
    refine ⟨hlast, hends, ?_⟩
    intro picks' hpicks
    rw [← hpicks] at hturn
    rw [run_of_look hturn ht hset]
    exact hstopped picks' hpicks

end

/-- Of all runs that begin at an instant, with a pass due at once, whatever goes first at each turn:
none begins a pass after the order to stop if and only if the order does not come before the run
and no run has a pass that overruns it. Runs that look first never begin one. A pass that is over
after the order and before the next one is due is the last, and the run ends with it: with one more
turn it has stopped. -/
theorem stops_iff {s : σ} {start : Instant} (hkeeps : ∀ t s, shutdown (pass t s).2 = shutdown s)
    (h : StopsAt (shutdown s) stop) :
    ((∀ picks fuel, ∀ p ∈ passes interval limit shutdown pass picks fuel 0 start start s, p.began ≤ stop) ↔
      (start < limit → start ≤ stop) ∧
        ∀ picks fuel, ∀ p ∈ passes interval limit shutdown pass picks fuel 0 start start s,
          ¬p.Overruns interval stop limit) ∧
    (∀ fuel, ∀ p ∈ passes interval limit shutdown pass (fun _ => false) fuel 0 start start s, p.began ≤ stop) ∧
    ∀ picks fuel, ∀ p ∈ passes interval limit shutdown pass picks fuel 0 start start s,
      ∀ ended, p.ended = some ended → stop ≤ ended → ended < limit → ended < p.nextDue interval →
        (∃ earlier, passes interval limit shutdown pass picks fuel 0 start start s = earlier ++ [p]) ∧
          (run interval limit shutdown pass picks fuel 0 start start s = .stopped p.after ended ∨
            run interval limit shutdown pass picks fuel 0 start start s = .unfinished p.after) ∧
          ∀ picks', (∀ n, picks' (n + 1) = picks n) →
            run interval limit shutdown pass picks' (fuel + 1) 0 start start s = .stopped p.after ended := by
  refine ⟨⟨fun hnone => ⟨fun hlimit => ?_, fun picks fuel p hp hoverruns => ?_⟩, ?_⟩, fun fuel => ?_, ?_⟩
  · by_contra hlate
    have hafter : stop ≤ start := Nat.le_of_lt (Nat.lt_of_not_le hlate)
    have hbegins : ∃ q ∈ passes interval limit shutdown pass (fun _ => true) 1 0 start start s, q.began = start :=
      begins_of_due h unseen_zero hafter (Nat.le_refl start) hlimit rfl
    obtain ⟨q, hq, hbegan⟩ := hbegins
    exact hlate (hbegan ▸ hnone _ _ q hq)
  · obtain ⟨picks', q, hq, hlate⟩ := begins_late hkeeps h unseen_zero hp hoverruns
    exact Nat.not_le_of_lt hlate (hnone _ _ q hq)
  · rintro ⟨hstart, hintime⟩ picks fuel
    refine began_le hkeeps h unseen_zero ?_ fun p hp hoverruns => absurd hoverruns (hintime picks fuel p hp)
    by_cases hlimit : start < limit
    · exact .inl (hstart hlimit)
    · exact .inr (.inl (Nat.le_of_not_lt hlimit))
  · exact began_le hkeeps h unseen_zero (.inr (.inr (.inr fun _ => rfl))) fun _ _ _ _ => rfl
  · intro picks fuel p hp ended hended hstop hlimit hdue
    exact ends_with hkeeps h unseen_zero hp hended hstop hlimit hdue

/-- A pass that takes less than what is left of the interval after a late start does not overrun. -/
theorem not_overruns {p : Passed σ} (h : ∀ ended, p.ended = some ended → ended + tolerance < p.began + interval) :
    ¬p.Overruns interval stop limit := by
  rintro ⟨-, ended, hended, -, -, hdue⟩
  have hshort := h ended hended
  simp only [Passed.nextDue, nextDue] at hdue
  split at hdue <;> grind

/-- Told to stop at 5. -/
def stopAtFive : Signal := ⟨false, [(5, .send true)]⟩

theorem stopsAt_stopAtFive : StopsAt stopAtFive 5 where
  ordered := by decide
  sent := by decide
  set := by
    intro t ht
    simp [Signal.valueAt, stopAtFive, ht, Signal.Change.apply]

theorem stops_iff_stopAtFive : StopsAt stopAtFive 5 ∧ ∀ picks fuel,
    ∀ p ∈ passes 10 1000 (fun _ => stopAtFive) (fun t s => (some (t + 3), s)) picks fuel 0 0 0 (), p.began ≤ 5 := by
  have hiff := @stops_iff Unit 10 1000 (fun _ => stopAtFive) (fun t s => (some (t + 3), s)) 5 () 0 (fun _ _ => rfl)
    stopsAt_stopAtFive
  refine ⟨stopsAt_stopAtFive, hiff.1.mpr ⟨fun _ => by decide, fun picks fuel p hp => ?_⟩⟩
  refine not_overruns fun ended hended => ?_
  obtain ⟨hpass, -⟩ := Prod.mk.inj (pass_of_mem_passes hp)
  rw [hended] at hpass
  cases hpass
  simp [tolerance]

/-- Told to stop at 5, and begins a pass at 25: the one of before has taken until then, and both
that and the order are there. -/
theorem overrun_begins_another :
    StopsAt stopAtFive 5 ∧
      run 10 1000 (fun _ => stopAtFive) (noting fun t s => (some (if t < 5 then t + 25 else t), s)) (fun _ => true)
        8 0 0 0 ((), []) = .stopped ((), [0, 25]) 25 :=
  ⟨stopsAt_stopAtFive, rfl⟩

end MachineKeeper.Resync
