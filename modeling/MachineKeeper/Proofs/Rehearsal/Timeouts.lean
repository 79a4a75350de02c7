/-
  MachineKeeper.Proofs.Rehearsal.Timeouts — which timeouts leave a reconcile time to begin.

  The settings take every timeout below 2^64 seconds. Instants end after 2^63 seconds, and the
  deadline of an attempt is a sum of two: where it lies beyond the end the attempt crashes before
  its reconcile begins. So timeouts in the upper half of what is taken let no reconcile begin,
  whatever the time, and of the lower half each one does so long as the clock has not come too
  far. A pass says no more of it than that all of its keys have failed.

  Proved:
  - `isSome_after?_iff`: when there is a deadline so many seconds from now.
  - `deliveries_eq_nil_iff`: a sync that starts too late reconciles nothing, and no other one does.
  - `ends_delivered`: a sync that is over in good time ends as its last reconcile does.
  - `pass_late`: what a pass makes of it.
  - `reconciles_begin_iff`: all of it, for every timeout the settings take.
  - `longest_taken_crashes`: so there are timeouts that are taken and of no use.
-/

import MachineKeeper.Proofs.Rehearsal.Accounting
import MachineKeeper.Proofs.Rehearsal.Requeues
import MachineKeeper.Proofs.Settings

namespace MachineKeeper

theorem lastInstant_lt_iff {now seconds : Nat} : lastInstant < now + 1000 * seconds ↔ 2 ^ 63 ≤ now / 1000 + seconds := by
  show (9223372036854775807 * 1000 + 999 : Nat) < now + 1000 * seconds ↔ _
  omega

theorem Deadline.isSome_after?_iff {now seconds : Nat} :
    (after? now (1000 * seconds)).isSome ↔ now / 1000 + seconds < 2 ^ 63 := by
  have hlate : lastInstant < now + 1000 * seconds ↔ 2 ^ 63 ≤ now / 1000 + seconds := lastInstant_lt_iff
  unfold after?
  by_cases h : now + 1000 * seconds ≤ lastInstant
  · simp only [if_pos h, Option.isSome_some, true_iff]
    exact Nat.lt_of_not_le fun hover => Nat.not_lt_of_le h (hlate.mpr hover)
  · simp only [if_neg h, Option.isSome_none, Bool.false_eq_true, false_iff]
    exact Nat.not_lt_of_le (hlate.mp (Nat.lt_of_not_le h))

/-- The settings take a timeout just if it is at least one second and fits 64 bits. -/
theorem Settings.exists_timeout_iff {n : Nat} :
    (∃ lookup s, read lookup = .ok s ∧ s.reconcileTimeout.toNat = n) ↔ 1 ≤ n ∧ n < 2 ^ 64 := by
  constructor
  · intro h
    obtain ⟨lookup, s, hread, rfl⟩ := h
    refine ⟨?_, s.reconcileTimeout.toNat_lt⟩
    rcases (read_eq_ok_iff.mp hread).timeout with ⟨-, hdefault⟩ | ⟨-, -, -, hpos⟩
    · omega
    · exact hpos
  · intro h
    obtain ⟨hpos, hlt⟩ := h
    let given := String.ofList ([] ++ Text.digits n ++ [])
    let lookup : String → Option String := fun name => if name = timeoutVariable then some given else none
    have hgiven : lookup timeoutVariable = some given := if_pos rfl
    have hwritten : Written given n := written_digits n (by simp) (by simp)
    have hresync : lookup resyncVariable = none := rfl
    obtain ⟨s, hread⟩ := exists_read_iff.mpr ⟨.inl hresync, .inr ⟨given, n, hgiven, hwritten, hpos, hlt⟩⟩
    exact ⟨lookup, s, hread, (read_eq_ok_iff.mp hread).timeout.eq_of_written hgiven hwritten hlt⟩

namespace Rehearsal

/-! ## The clock -/

/-- Nothing is carried out beyond the limit. -/
theorem now_le_play {α : Type} {limit : Instant} (p : Act α) {w : World} (h : w.now ≤ limit) :
    (play limit p w).2.now ≤ limit := by
  induction p generalizing w with
  | done a => exact h
  | call c next ih =>
    have hnow := perform_now c w
    rw [play]
    cases hc : w.perform c with
    | mk response w' =>
      rw [hc] at hnow
      cases response with
      | atOnce a => exact ih a (hnow ▸ h)
      | waiting ctx ready answer =>
        dsimp only
        cases ctx.await w'.signals w'.now ready with
        | none => exact Nat.le_refl limit
        | some woken =>
          dsimp only
          split
          · next htime => exact ih _ htime
          · exact Nat.le_refl limit
      | queued a => exact Nat.le_refl limit

/-! ## A sync alone -/

section

variable {reconciler : Reconciler} {config : WorkerConfig} {ctx : Context} {key : Key} {limit : Instant} {w : World}

/-- What a sync does with the calls it has to make. -/
theorem pursued_plan : ∃ ds, Agenda reconciler limit ctx config.timeout key config.maxRequeues w ds ∧
    Pursued config.timeout ds (follow reconciler limit (Sync.plan config ctx key) w) := by
  obtain ⟨ds, hds⟩ := exists_agenda config.maxRequeues w
  exact ⟨ds, hds, pursued hds⟩

theorem deliveries_eq_nil_iff : (follow reconciler limit (Sync.plan config ctx key) w).deliveries = [] ↔
    lastInstant < w.now + config.timeout := by
  constructor
  · intro h
    obtain ⟨ds, hds, hpursued⟩ : ∃ ds, Agenda reconciler limit ctx config.timeout key config.maxRequeues w ds ∧ _ :=
      pursued_plan
    obtain ⟨rest, hcons⟩ := hds.eq_cons (due_deliver ..)
    generalize follow reconciler limit (Sync.plan config ctx key) w = f at h hpursued
    cases hpursued with
    | all hall hlast => simp_all
    | cut hbefore hd hsplit =>
      subst h
      obtain ⟨rfl, -⟩ := List.cons.inj (hcons.symm.trans hsplit)
      exact Nat.lt_of_not_le hd
  · intro h
    rw [follow_late h]

theorem ends_delivered (hnow : w.now ≤ limit) (h : limit + config.timeout ≤ lastInstant) :
    let f := follow reconciler limit (Sync.plan config ctx key) w
    ∃ before d, f.deliveries = before ++ [d] ∧ f.result = d.result := by
  intro f
  have hworld : f.world.now ≤ limit := by
    have hplay : (play limit (syncAct reconciler config ctx key) w).2 = f.world :=
      congrArg Prod.snd (play_syncAct reconciler config ctx key limit w)
    rw [← hplay]
    exact now_le_play _ hnow
  obtain ⟨ds, -, hpursued⟩ : ∃ ds, Agenda reconciler limit ctx config.timeout key config.maxRequeues w ds ∧
    Pursued config.timeout ds f := pursued_plan
  clear_value f
  cases hpursued with
  | all hall hlast => exact ⟨_, _, hlast, rfl⟩
  | cut hbefore hd hsplit =>
    have hrange := Nat.le_trans (Nat.add_le_add_right hworld config.timeout) h
    exact absurd hrange hd

/-! ## A pass -/

theorem advance_late (h : lastInstant < w.now + config.timeout) :
    advance (syncAct reconciler config ctx key) w = (.finished .crashed, w) := by
  obtain ⟨again, hagain⟩ := Sync.exists_attempt ctx config.timeout key config.maxRequeues
  have hchild : ctx.withTimeout? w.now config.timeout = none := by
    simp [Context.withTimeout?, Deadline.after?, Nat.not_le_of_lt h]
  unfold syncAct Sync.plan
  rw [hagain, Sync.attempt_eq]
  simp only [Plan.via, ask, Plan.ask, Plan.call_bind, Plan.done_bind, advance, World.perform, hchild]

/-- Plans that crash in their first turn have all crashed after a turn each. -/
theorem run_crashing {plans : List (Act Attempt)} (h : ∀ p ∈ plans, advance p w = (.finished .crashed, w))
    {fuel : Nat} (hfuel : plans.length < fuel) (results : List Attempt) :
    Stage.run limit fuel ⟨plans.map .acting, [], [], results⟩ w =
      (some (results ++ List.replicate plans.length .crashed), w) := by
  induction plans generalizing fuel results with
  | nil =>
    obtain ⟨fuel, rfl⟩ := Nat.exists_eq_succ_of_ne_zero (Nat.ne_of_gt hfuel)
    simp [Stage.run, Stage.nextWake]
  | cons p plans ih =>
    obtain ⟨fuel, rfl⟩ := Nat.exists_eq_succ_of_ne_zero (Nat.ne_of_gt (Nat.zero_lt_of_lt hfuel))
    have hp := h p List.mem_cons_self
    have hrest := ih (fun q hq => h q (List.mem_cons_of_mem p hq)) (Nat.lt_of_succ_lt_succ hfuel) (results ++ [.crashed])
    have hidle : ∀ s : Stage Attempt, s.queue = [] → s.callNext w = (s, w) := by
      intro s hs
      simp [Stage.callNext, hs]
    rw [List.map_cons, Stage.run]
    simp only [hp, Stage.settle]
    rw [hidle _ rfl, hrest, List.length_cons, List.replicate_succ]
    simp

theorem pass_late {k : Kind} {keys : List Key} (hkeys : (w.storeQuietly (.list (k := k))).1 = .ok keys)
    (h : lastInstant < w.now + config.timeout) :
    pass k reconciler config ctx limit w = (.done ⟨0, keys.length, 0⟩, w.catchUp) := by
  have hlist : w.storeQuietly (.list (k := k)) = (.ok keys, w) := Prod.ext hkeys (storeQuietly_list k w)
  have hcrash : ∀ p ∈ keys.map (syncAct reconciler config ctx), advance p w.catchUp = (.finished .crashed, w.catchUp) := by
    intro p hp
    obtain ⟨key, -, rfl⟩ := List.mem_map.mp hp
    exact advance_late (by rwa [catchUp_now])
  have hfuel : (keys.map (syncAct reconciler config ctx)).length < turns keys config := by
    rw [List.length_map, turns]
    exact Nat.lt_of_lt_of_le (by omega : keys.length < 64 * (keys.length + 1)) (Nat.le_mul_of_pos_right _ (Nat.succ_pos _))
  have hrun : Stage.run limit _ _ _ = _ := run_crashing hcrash hfuel []
  have hsummary : Summary.ofAttempts (List.replicate keys.length .crashed) = ⟨0, keys.length, 0⟩ := by
    simp [Summary.ofAttempts_eq, Attempt.failed, Attempt.asksForMore, List.countP_replicate]
  rw [pass, hlist]
  simp only [Stage.of, hrun, List.nil_append, List.length_map, hsummary]

end

/-- **Of the timeouts that the settings take, from 1 to 2^64 - 1 seconds, those let a reconcile begin that end within 2^63
seconds of the clock's own start.** If not, a sync crashes with no reconcile, and a pass has all its keys failed; if no
attempt can begin so late, a sync comes to what its last reconcile came to. -/
theorem reconciles_begin_iff (n : Nat) :
    ((∃ lookup s, Settings.read lookup = .ok s ∧ s.reconcileTimeout.toNat = n) ↔ 1 ≤ n ∧ n < 2 ^ 64) ∧
    ∀ lookup s, Settings.read lookup = .ok s → s.reconcileTimeout.toNat = n →
      (∀ now, (Deadline.after? now s.timeout).isSome ↔ now / 1000 + n < 2 ^ 63) ∧
      ∀ (reconciler : Reconciler) (settled : WorkerConfig) (ctx : Context) (limit : Instant) (w : World),
        let config := { settled with timeout := s.timeout }
        (∀ key, let f := follow reconciler limit (Sync.plan config ctx key) w
          play limit (syncAct reconciler config ctx key) w = (f.result, f.world) ∧
            (f.deliveries = [] ↔ 2 ^ 63 ≤ w.now / 1000 + n) ∧
            (2 ^ 63 ≤ w.now / 1000 + n → f.result = some .crashed ∧ f.world = w) ∧
            (w.now ≤ limit → limit / 1000 + n < 2 ^ 63 → ∃ before d, f.deliveries = before ++ [d] ∧ f.result = d.result)) ∧
          ∀ k keys, (w.storeQuietly (.list (k := k))).1 = .ok keys → 2 ^ 63 ≤ w.now / 1000 + n →
            pass k reconciler config ctx limit w = (.done ⟨0, keys.length, 0⟩, w.catchUp) := by
  refine ⟨Settings.exists_timeout_iff, ?_⟩
  intro lookup s _ hn
  subst hn
  refine ⟨fun now => Deadline.isSome_after?_iff, ?_⟩
  intro reconciler settled ctx limit w config
  have hlate : lastInstant < w.now + config.timeout ↔ 2 ^ 63 ≤ w.now / 1000 + s.reconcileTimeout.toNat := lastInstant_lt_iff
  refine ⟨?_, ?_⟩
  · intro key f
    refine ⟨play_syncAct reconciler config ctx key limit w, deliveries_eq_nil_iff.trans hlate, ?_, ?_⟩
    · intro h
      have hf : f = ⟨[], some .crashed, w⟩ := follow_late (hlate.mpr h)
      rw [hf]
      exact ⟨rfl, rfl⟩
    · intro hnow h
      have hlimit : ¬lastInstant < limit + config.timeout := fun hover => Nat.not_le_of_lt h (lastInstant_lt_iff.mp hover)
      exact ends_delivered hnow (Nat.le_of_not_lt hlimit)
  · intro k keys hkeys h
    exact pass_late hkeys (hlate.mpr h)

/-- It is taken, and no sync can be given it, however early. -/
theorem longest_taken_crashes :
    ∃ s, Settings.read Settings.tooLong = .ok s ∧ Deadline.after? 0 s.timeout = none ∧
      play 0 (syncAct scripted { WorkerConfig.standard with timeout := s.timeout } .background ⟨"default", "w1"⟩)
          (World.start someTime .emptyMemory) = (some .crashed, World.start someTime .emptyMemory) := by
  exact ⟨_, Settings.read_tooLong, rfl, rfl⟩

end Rehearsal

end MachineKeeper
