/-
  MachineKeeper.Proofs.Rehearsal.Requeues — how often a key is reconciled in one sync.

  The reconciler may be any plan at all: it may take its time, change the world, cancel the context it is
  called under, fail or never end, and it may read from the world what to come to (as the scripted one does), so
  that any sequence of results is one of some reconciler's. A sync is carried out with a note of every call of the
  reconciler (`follow`): what it was given, the world it began in and the one it left. Carried out
  that way it comes to the same (`play_syncAct`).

  A call is final if it does not ask to be made again at once, if as many calls came before it as
  there may be requeues, or if the context of the whole is done by the time it is back. The calls up
  to the first final one are those a sync has to make (`Agenda`); that is said without its plan, and
  without regard to where instants end. A call whose deadline lies beyond that end cannot be made,
  and the sync crashes in its place. So a sync does what it has to if and only if none of those calls
  is out of range; and there are timeouts, taken by the settings, with which the first one is.

  The requeues may as well be counted up, in a word of 32 bits (`Sync.countedFrom`): they are
  only counted below the bound, so the word never runs round.

  Proved:
  - `countedFrom_eq`: both ways of counting make one plan.
  - `exists_agenda`: there are such calls, whatever the reconciler does.
  - `attempted`: what one attempt amounts to.
  - `pursued`: a sync makes the calls it has to, up to the first that is out of range.
  - `follow_late`: a sync that starts too late for its timeout crashes and changes nothing.
  - `requeues_followed_iff`: all of it, for any reconciler.
  - `overlong_timeout_makes_no_call`: a sync that makes none of them.
-/

import MachineKeeper.Proofs.Rehearsal.Calm
import MachineKeeper.Proofs.Settings

namespace MachineKeeper

/-! ## Counting up -/

namespace Sync

theorem toNat_count_succ {count bound : UInt32} (h : count < bound) : (count + 1).toNat = count.toNat + 1 := by
  have hlt := UInt32.lt_iff_toNat_lt.mp h
  have hbound := bound.toNat_lt
  rw [UInt32.toNat_add]
  simp only [UInt32.reduceToNat]
  omega

/-- An attempt with so many requeues before it, and those after it. -/
def countedFrom (ctx : Context) (timeout : Nat) (key : Key) (bound count : UInt32) : SyncPlan Attempt :=
  attempt ctx timeout key <|
    if _h : count < bound then
      .call (.interruption ctx) fun
        | some _ => .done (.finished (.ok .immediate))
        | none => countedFrom ctx timeout key bound (count + 1)
    else .done (.finished (.ok .immediate))
termination_by bound.toNat - count.toNat
decreasing_by
  have hlt := UInt32.lt_iff_toNat_lt.mp _h
  rw [toNat_count_succ _h]
  omega

theorem attempt_eq (ctx : Context) (timeout : Nat) (key : Key) (again : SyncPlan Attempt) :
    attempt ctx timeout key again = .call .clock fun now => match ctx.withTimeout? now timeout with
      | none => .done .crashed
      | some child => .call (.reconcile child key) fun
        | .finished (.ok .immediate) => again
        | ended => .done ended := by
  apply congrArg (Plan.call SyncCall.clock)
  funext now
  dsimp only [Plan.done_bind]
  cases ctx.withTimeout? now timeout with
  | none => rfl
  | some child =>
    apply congrArg (Plan.call (SyncCall.reconcile child key))
    funext a
    match a with
    | .finished (.ok .immediate) => rfl
    | .finished (.ok .never) => rfl
    | .finished (.ok (.after _)) => rfl
    | .finished (.error _) => rfl
    | .crashed => rfl

theorem attempts_succ (ctx : Context) (timeout : Nat) (key : Key) (left : Nat) :
    attempts ctx timeout key (left + 1) = attempt ctx timeout key (.call (.interruption ctx) fun
      | some _ => .done (.finished (.ok .immediate))
      | none => attempts ctx timeout key left) := by
  apply congrArg (attempt ctx timeout key)
  apply congrArg (Plan.call (SyncCall.interruption ctx))
  funext why
  cases why <;> rfl

theorem countedFrom_eq (ctx : Context) (timeout : Nat) (key : Key) (bound count : UInt32) :
    countedFrom ctx timeout key bound count = attempts ctx timeout key (bound.toNat - count.toNat) := by
  generalize hleft : bound.toNat - count.toNat = left
  induction left generalizing count with
  | zero =>
    have h : ¬count < bound := by
      rw [UInt32.lt_iff_toNat_lt]
      omega
    rw [countedFrom, dif_neg h]
    rfl
  | succ left ih =>
    have h : count < bound := by
      rw [UInt32.lt_iff_toNat_lt]
      omega
    have hnext : countedFrom ctx timeout key bound (count + 1) = attempts ctx timeout key left := by
      apply ih
      rw [toNat_count_succ h]
      omega
    rw [countedFrom, dif_pos h, hnext, attempts_succ]

end Sync

namespace Rehearsal

/-! ## A sync with its calls -/

/-- A call of the reconciler. -/
structure Delivery where
  ctx : Context
  key : Key
  before : World
  /-- None, if it is not back by the limit. -/
  result : Option Attempt
  after : World

/-- A sync that was carried out, with the calls it made. -/
structure Followed where
  deliveries : List Delivery
  result : Option Attempt
  world : World

def Followed.cons (d : Delivery) (f : Followed) : Followed := { f with deliveries := d :: f.deliveries }

def deliver (reconciler : Reconciler) (limit : Instant) (ctx : Context) (key : Key) (w : World) : Delivery :=
  let (result, after) := play limit (reconciler ctx key) w
  ⟨ctx, key, w, result, after⟩

def follow (reconciler : Reconciler) (limit : Instant) : SyncPlan Attempt → World → Followed
  | .done a, w => ⟨[], some a, w⟩
  | .call .clock next, w => follow reconciler limit (next w.now) w
  | .call (.interruption ctx) next, w => follow reconciler limit (next (w.interruption ctx)) w
  | .call (.reconcile ctx key) next, w =>
    let d := deliver reconciler limit ctx key w
    match d.result with
    | none => ⟨[d], none, d.after⟩
    | some a => (follow reconciler limit (next a) d.after).cons d

theorem follow_reconcile (reconciler : Reconciler) (limit : Instant) (ctx : Context) (key : Key)
    (next : Attempt → SyncPlan Attempt) (w : World) : follow reconciler limit (.call (.reconcile ctx key) next) w =
      let d := deliver reconciler limit ctx key w
      match d.result with
      | none => ⟨[d], none, d.after⟩
      | some a => (follow reconciler limit (next a) d.after).cons d := by
  rw [follow]

/-- It comes to the same with the note and without. -/
theorem play_syncAct (reconciler : Reconciler) (config : WorkerConfig) (ctx : Context) (key : Key) (limit : Instant)
    (w : World) :
    let f := follow reconciler limit (Sync.plan config ctx key) w
    play limit (syncAct reconciler config ctx key) w = (f.result, f.world) := by
  unfold syncAct
  generalize Sync.plan config ctx key = p
  induction p generalizing w with
  | done a => rfl
  | call c next ih =>
    cases c with
    | clock => exact ih w.now w
    | interruption ctx => exact ih (w.interruption ctx) w
    | reconcile ctx key =>
      rw [Plan.via, play_bind]
      simp only [follow, deliver]
      cases play limit (reconciler ctx key) w with
      | mk result after =>
        cases result with
        | none => rfl
        | some a => exact ih a after

section

variable {reconciler : Reconciler} {limit : Instant} {ctx : Context} {timeout left : Nat} {key : Key} {w : World}
  {d : Delivery} {ds : List Delivery} {f : Followed}

/-- The call that is due in that world: with the key and a child of the context. The signal is the same, and the deadline
the earlier one of that of the context and of the time the call has for itself. -/
structure Due (reconciler : Reconciler) (limit : Instant) (ctx : Context) (timeout : Nat) (key : Key) (w : World)
    (d : Delivery) : Prop where
  before : d.before = w
  outcome : play limit (reconciler d.ctx d.key) w = (d.result, d.after)
  key : d.key = key
  signal : d.ctx.signal = ctx.signal
  deadline : d.ctx.deadline = earliest ctx.deadline (some (w.now + timeout))

/-- Nothing comes after it, with so many requeues left. -/
def Delivery.Final (ctx : Context) (left : Nat) (d : Delivery) : Prop :=
  d.result ≠ some (.finished (.ok .immediate)) ∨ left = 0 ∨ d.after.interruption ctx ≠ none

/-- There is an instant at which the time it has for itself is over. -/
def Delivery.InRange (timeout : Nat) (d : Delivery) : Prop := d.before.now + timeout ≤ lastInstant

/-- Where these calls leave the world. -/
def standing (w : World) (ds : List Delivery) : World := (ds.getLast?.map Delivery.after).getD w

theorem standing_cons : standing w (d :: ds) = standing d.after ds := by
  unfold standing
  rw [List.getLast?_cons]
  cases ds.getLast? <;> rfl

theorem due_deliver (reconciler : Reconciler) (limit : Instant) (ctx : Context) (timeout : Nat) (key : Key) (w : World) :
    Due reconciler limit ctx timeout key w (deliver reconciler limit (ctx.expiringAt (w.now + timeout)) key w) :=
  ⟨rfl, rfl, rfl, rfl, rfl⟩

theorem Due.eq_deliver (h : Due reconciler limit ctx timeout key w d) :
    d = deliver reconciler limit (ctx.expiringAt (w.now + timeout)) key w := by
  obtain ⟨⟨signal, deadline⟩, key', before, result, after⟩ := d
  obtain ⟨hbefore, houtcome, hkey, hsignal, hdeadline⟩ := h
  dsimp only at hbefore houtcome hkey hsignal hdeadline
  subst hbefore hkey hsignal hdeadline
  unfold deliver Context.expiringAt
  rw [houtcome]

theorem Due.inRange_iff (h : Due reconciler limit ctx timeout key w d) : d.InRange timeout ↔ w.now + timeout ≤ lastInstant := by
  unfold Delivery.InRange
  rw [h.before]

/-! ## The calls a sync has to make -/

/-- With so many requeues left: one after the other, up to the first that is final. -/
structure Agenda (reconciler : Reconciler) (limit : Instant) (ctx : Context) (timeout : Nat) (key : Key) (left : Nat)
    (w : World) (ds : List Delivery) : Prop where
  inTurn : ∀ before d after, ds = before ++ d :: after → Due reconciler limit ctx timeout key (standing w before) d
  goesOn : ∀ before d after, ds = before ++ d :: after → after ≠ [] → ¬d.Final ctx (left - before.length)
  ends : ∃ before d, ds = before ++ [d] ∧ d.Final ctx (left - before.length)

theorem Agenda.single (hd : Due reconciler limit ctx timeout key w d) (h : d.Final ctx left) :
    Agenda reconciler limit ctx timeout key left w [d] := by
  have hsplit : ∀ {before d' after}, [d] = before ++ d' :: after → before = [] ∧ d' = d ∧ after = [] := by
    intro before d' after he
    cases before <;> simp_all
  refine ⟨?_, ?_, ⟨[], d, rfl, h⟩⟩
  · intro before d' after he
    obtain ⟨rfl, rfl, -⟩ := hsplit he
    exact hd
  · intro before d' after he hafter
    exact absurd (hsplit he).2.2 hafter

theorem Agenda.cons (hd : Due reconciler limit ctx timeout key w d) (h : ¬d.Final ctx (left + 1))
    (hds : Agenda reconciler limit ctx timeout key left d.after ds) :
    Agenda reconciler limit ctx timeout key (left + 1) w (d :: ds) := by
  refine ⟨?_, ?_, ?_⟩
  · intro before d' after hsplit
    rcases List.cons_eq_append_iff.mp hsplit with ⟨rfl, hd'⟩ | ⟨before, rfl, hrest⟩
    · cases hd'
      exact hd
    · rw [standing_cons]
      exact hds.inTurn before d' after hrest
  · intro before d' after hsplit hafter
    rcases List.cons_eq_append_iff.mp hsplit with ⟨rfl, hd'⟩ | ⟨before, rfl, hrest⟩
    · obtain ⟨rfl, -⟩ := List.cons.inj hd'
      exact h
    · rw [List.length_cons, Nat.add_sub_add_right]
      exact hds.goesOn before d' after hrest hafter
  · obtain ⟨before, last, hlast, hfinal⟩ := hds.ends
    refine ⟨d :: before, last, congrArg (d :: ·) hlast, ?_⟩
    rw [List.length_cons, Nat.add_sub_add_right]
    exact hfinal

/-- There is a first final call, for the requeues come to an end. -/
theorem exists_agenda (left : Nat) (w : World) : ∃ ds, Agenda reconciler limit ctx timeout key left w ds := by
  have hdue := due_deliver reconciler limit ctx timeout key
  induction left generalizing w with
  | zero => exact ⟨_, .single (hdue w) (.inr (.inl rfl))⟩
  | succ left ih =>
    by_cases hfinal : (deliver reconciler limit (ctx.expiringAt (w.now + timeout)) key w).Final ctx (left + 1)
    · exact ⟨_, .single (hdue w) hfinal⟩
    · obtain ⟨ds, hds⟩ := ih (deliver reconciler limit (ctx.expiringAt (w.now + timeout)) key w).after
      exact ⟨_, .cons (hdue w) hfinal hds⟩

section

variable (h : Agenda reconciler limit ctx timeout key left w ds) (hd : Due reconciler limit ctx timeout key w d)

include h hd

/-- They begin with the call that is due. -/
theorem Agenda.eq_cons : ∃ rest, ds = d :: rest := by
  obtain ⟨before, last, hlast, -⟩ := h.ends
  cases ds with
  | nil => simp at hlast
  | cons d' rest =>
    have hd' : Due reconciler limit ctx timeout key w d' := h.inTurn [] d' rest rfl
    rw [hd.eq_deliver, hd'.eq_deliver]
    exact ⟨rest, rfl⟩

theorem Agenda.eq_of_final (hfinal : d.Final ctx left) : ds = [d] := by
  obtain ⟨rest, rfl⟩ := h.eq_cons hd
  by_contra hmore
  have hrest : rest ≠ [] := fun he => hmore (by rw [he])
  exact h.goesOn [] d rest rfl hrest hfinal

end

theorem Agenda.eq_of_not_final (h : Agenda reconciler limit ctx timeout key (left + 1) w ds)
    (hd : Due reconciler limit ctx timeout key w d) (hfinal : ¬d.Final ctx (left + 1)) :
    ∃ rest, ds = d :: rest ∧ Agenda reconciler limit ctx timeout key left d.after rest := by
  obtain ⟨rest, rfl⟩ := h.eq_cons hd
  refine ⟨rest, rfl, ?_, ?_, ?_⟩
  · intro before d' after hsplit
    rw [← standing_cons (w := w)]
    exact h.inTurn (d :: before) d' after (by rw [hsplit, List.cons_append])
  · intro before d' after hsplit hafter
    have hnot := h.goesOn (d :: before) d' after (by rw [hsplit, List.cons_append]) hafter
    rwa [List.length_cons, Nat.add_sub_add_right] at hnot
  · obtain ⟨before, last, hlast, hlastFinal⟩ := h.ends
    cases before with
    | nil =>
      obtain ⟨rfl, -⟩ := List.cons.inj hlast
      exact absurd hlastFinal hfinal
    | cons d' before =>
      rw [List.length_cons, Nat.add_sub_add_right] at hlastFinal
      exact ⟨before, last, (List.cons.inj hlast).2, hlastFinal⟩

theorem Agenda.length_le (h : Agenda reconciler limit ctx timeout key left w ds) : ds.length ≤ left + 1 := by
  have hd := due_deliver reconciler limit ctx timeout key
  induction left generalizing w ds with
  | zero => simp [h.eq_of_final (hd w) (.inr (.inl rfl))]
  | succ left ih =>
    by_cases hfinal : (deliver reconciler limit (ctx.expiringAt (w.now + timeout)) key w).Final ctx (left + 1)
    · simp [h.eq_of_final (hd w) hfinal]
    · obtain ⟨rest, rfl, hrest⟩ := h.eq_of_not_final (hd w) hfinal
      exact Nat.succ_le_succ (ih hrest)

/-! ## The calls it makes -/

/-- What an attempt amounts to: it has no time left to be given, or it is the last, or another follows. -/
inductive Attempted (reconciler : Reconciler) (limit : Instant) (ctx : Context) (timeout : Nat) (key : Key)
    (again : SyncPlan Attempt) (w : World) : Followed → Prop
  | late : lastInstant < w.now + timeout → Attempted reconciler limit ctx timeout key again w ⟨[], some .crashed, w⟩
  | last {d : Delivery} : d.InRange timeout → Due reconciler limit ctx timeout key w d →
      d.result ≠ some (.finished (.ok .immediate)) →
      Attempted reconciler limit ctx timeout key again w ⟨[d], d.result, d.after⟩
  | again {d : Delivery} : d.InRange timeout → Due reconciler limit ctx timeout key w d →
      d.result = some (.finished (.ok .immediate)) →
      Attempted reconciler limit ctx timeout key again w ((follow reconciler limit again d.after).cons d)

theorem attempted (reconciler : Reconciler) (limit : Instant) (ctx : Context) (timeout : Nat) (key : Key)
    (again : SyncPlan Attempt) (w : World) : Attempted reconciler limit ctx timeout key again w
      (follow reconciler limit (Sync.attempt ctx timeout key again) w) := by
  rw [Sync.attempt_eq, follow]
  by_cases htime : w.now + timeout ≤ lastInstant
  · have hchild : ctx.withTimeout? w.now timeout = some (ctx.expiringAt (w.now + timeout)) := by
      simp [Context.withTimeout?, Deadline.after?, htime]
    rw [hchild]
    dsimp only
    rw [follow_reconcile]
    dsimp only
    have hdue := due_deliver reconciler limit ctx timeout key w
    generalize deliver reconciler limit (ctx.expiringAt (w.now + timeout)) key w = d at hdue ⊢
    have hrange := hdue.inRange_iff.mpr htime
    have hends : d.result ≠ some (.finished (.ok .immediate)) →
        Attempted reconciler limit ctx timeout key again w ⟨[d], d.result, d.after⟩ := .last hrange hdue
    cases hresult : d.result with
    | none =>
      rw [hresult] at hends
      exact hends (by simp)
    | some a =>
      by_cases ha : a = .finished (.ok .immediate)
      · subst ha
        exact .again hrange hdue hresult
      · rw [hresult] at hends
        replace hends := hends (by simpa using ha)
        match a, ha with
        | .finished (.ok .immediate), ha => exact absurd rfl ha
        | .finished (.ok .never), _ => exact hends
        | .finished (.ok (.after _)), _ => exact hends
        | .finished (.error _), _ => exact hends
        | .crashed, _ => exact hends
  · have hchild : ctx.withTimeout? w.now timeout = none := by
      simp [Context.withTimeout?, Deadline.after?, htime]
    rw [hchild]
    exact .late (Nat.lt_of_not_le htime)

/-- What comes of the calls a sync has to make: it makes all of them and comes to what the last one came to, or it crashes
at the first that is out of range. -/
inductive Pursued (timeout : Nat) (ds : List Delivery) : Followed → Prop
  | all {before : List Delivery} {d : Delivery} : (∀ e ∈ ds, e.InRange timeout) → ds = before ++ [d] →
      Pursued timeout ds ⟨ds, d.result, d.after⟩
  | cut {before after : List Delivery} {d : Delivery} : (∀ e ∈ before, e.InRange timeout) → ¬d.InRange timeout →
      ds = before ++ d :: after → Pursued timeout ds ⟨before, some .crashed, d.before⟩

theorem Pursued.cons (h : d.InRange timeout) (hf : Pursued timeout ds f) : Pursued timeout (d :: ds) (f.cons d) := by
  cases hf with
  | all hall hlast => exact .all (List.forall_mem_cons.mpr ⟨h, hall⟩) (by rw [hlast, List.cons_append])
  | cut hbefore hd' hsplit => exact .cut (List.forall_mem_cons.mpr ⟨h, hbefore⟩) hd' (by rw [hsplit, List.cons_append])

theorem Agenda.pursued_late (h : Agenda reconciler limit ctx timeout key left w ds) (hover : lastInstant < w.now + timeout) :
    Pursued timeout ds ⟨[], some .crashed, w⟩ := by
  have hd := due_deliver reconciler limit ctx timeout key w
  obtain ⟨rest, hcons⟩ := h.eq_cons hd
  have hnone : ∀ e ∈ ([] : List Delivery), e.InRange timeout := List.forall_mem_nil _
  exact .cut hnone (Nat.not_le_of_lt hover) hcons

theorem Agenda.pursued_final (h : Agenda reconciler limit ctx timeout key left w ds)
    (hd : Due reconciler limit ctx timeout key w d) (hrange : d.InRange timeout) (hfinal : d.Final ctx left) :
    Pursued timeout ds ⟨[d], d.result, d.after⟩ := by
  rw [h.eq_of_final hd hfinal]
  exact .all (List.forall_mem_singleton.mpr hrange) (List.nil_append [d]).symm

/-- What asks to be made again, and is not. -/
theorem follow_ended (hresult : d.result = some (.finished (.ok .immediate))) :
    (follow reconciler limit (.done (.finished (.ok .immediate))) d.after).cons d = ⟨[d], d.result, d.after⟩ := by
  rw [hresult]
  rfl

theorem pursued (h : Agenda reconciler limit ctx timeout key left w ds) :
    Pursued timeout ds (follow reconciler limit (Sync.attempts ctx timeout key left) w) := by
  induction left generalizing w ds with
  | zero =>
    have hattempted : Attempted reconciler limit ctx timeout key (.done (.finished (.ok .immediate))) w
        (follow reconciler limit (Sync.attempts ctx timeout key 0) w) := attempted ..
    generalize follow reconciler limit (Sync.attempts ctx timeout key 0) w = f at hattempted ⊢
    cases hattempted with
    | late hover => exact h.pursued_late hover
    | last hrange hd hresult => exact h.pursued_final hd hrange (.inl hresult)
    | again hrange hd hresult =>
      rw [follow_ended hresult]
      exact h.pursued_final hd hrange (.inr (.inl rfl))
  | succ left ih =>
    rw [Sync.attempts_succ]
    have hattempted := attempted reconciler limit ctx timeout key
      (.call (.interruption ctx) fun
        | some _ => .done (.finished (.ok .immediate))
        | none => Sync.attempts ctx timeout key left) w
    generalize follow reconciler limit (Sync.attempt ctx timeout key _) w = f at hattempted ⊢
    cases hattempted with
    | late hover => exact h.pursued_late hover
    | last hrange hd hresult => exact h.pursued_final hd hrange (.inl hresult)
    | @again d hrange hd hresult =>
      rw [follow]
      cases hwhy : d.after.interruption ctx with
      | some why =>
        dsimp only
        rw [follow_ended hresult]
        exact h.pursued_final hd hrange (.inr (.inr (by simp [hwhy])))
      | none =>
        have hfinal : ¬d.Final ctx (left + 1) := by simp [Delivery.Final, hresult, hwhy]
        obtain ⟨rest, rfl, hrest⟩ := h.eq_of_not_final hd hfinal
        exact (ih hrest).cons hrange

theorem Pursued.deliveries_eq_iff (h : Pursued timeout ds f) :
    (f.deliveries = ds ∧ ∃ before d, ds = before ++ [d] ∧ f.result = d.result) ↔ ∀ d ∈ ds, d.InRange timeout := by
  cases h with
  | all hall hlast => exact iff_of_true ⟨rfl, _, _, hlast, rfl⟩ hall
  | @cut before after d hbefore hd hsplit =>
    refine iff_of_false ?_ ?_
    · intro hmade
      have hshort : before = before ++ d :: after := hmade.1.trans hsplit
      simp at hshort
    · intro hall
      exact hd (hall d (by simp [hsplit]))

/-- A sync that starts too late for its timeout crashes and changes nothing. -/
theorem follow_late {config : WorkerConfig} (h : lastInstant < w.now + config.timeout) :
    follow reconciler limit (Sync.plan config ctx key) w = ⟨[], some .crashed, w⟩ := by
  obtain ⟨again, hagain⟩ := Sync.exists_attempt ctx config.timeout key config.maxRequeues
  have hattempted := attempted reconciler limit ctx config.timeout key again w
  rw [← hagain] at hattempted
  unfold Sync.plan
  generalize follow reconciler limit (Sync.attempts ctx config.timeout key config.maxRequeues) w = f at hattempted ⊢
  cases hattempted with
  | late => rfl
  | last hrange hd => exact absurd (hd.inRange_iff.mp hrange) (Nat.not_le_of_lt h)
  | again hrange hd => exact absurd (hd.inRange_iff.mp hrange) (Nat.not_le_of_lt h)

theorem play_late {config : WorkerConfig} (h : lastInstant < w.now + config.timeout) :
    play limit (syncAct reconciler config ctx key) w = (some .crashed, w) := by
  rw [play_syncAct, follow_late h]

end

/-- **However the reconciler behaves, the calls that a sync has to make are those up to the first that does not ask for
another at once, has no requeue left or finds the context done, each with the deadline of its own start. It makes just
these and passes on the result of the last, if and only if none of their deadlines lies beyond the last instant;** if one
does, it crashes in place of the first such call. Whether the requeues are counted down or up in 32 bits, the plan is the
same. -/
theorem requeues_followed_iff (reconciler : Reconciler) (config : WorkerConfig) (ctx : Context) (key : Key) (limit : Instant)
    (w : World) :
    let f := follow reconciler limit (Sync.plan config ctx key) w
    play limit (syncAct reconciler config ctx key) w = (f.result, f.world) ∧
      (∃ ds, Agenda reconciler limit ctx config.timeout key config.maxRequeues w ds) ∧
      (∀ ds, Agenda reconciler limit ctx config.timeout key config.maxRequeues w ds →
        ds.length ≤ config.maxRequeues + 1 ∧ Pursued config.timeout ds f ∧
          ((f.deliveries = ds ∧ ∃ before d, ds = before ++ [d] ∧ f.result = d.result) ↔
            ∀ d ∈ ds, d.before.now + config.timeout ≤ lastInstant)) ∧
      ∀ bound : UInt32, Sync.plan { config with maxRequeues := bound.toNat } ctx key =
        Sync.countedFrom ctx config.timeout key bound 0 := by
  intro f
  refine ⟨play_syncAct reconciler config ctx key limit w, exists_agenda _ w, ?_, ?_⟩
  · intro ds hds
    have hpursued : Pursued config.timeout ds f := pursued hds
    exact ⟨hds.length_le, hpursued, hpursued.deliveries_eq_iff⟩
  · intro bound
    rw [Sync.countedFrom_eq]
    rfl

/-- With a timeout of 2^63 seconds, which the settings take, a sync makes no call at all. -/
theorem overlong_timeout_makes_no_call :
    ∃ s, Settings.read Settings.tooLong = .ok s ∧
      let config := { WorkerConfig.standard with timeout := s.timeout }
      let f := follow scripted 0 (Sync.plan config .background ⟨"default", "w1"⟩) (World.start someTime .emptyMemory)
      f.deliveries = [] ∧ f.result = some .crashed := by
  exact ⟨_, Settings.read_tooLong, rfl, rfl⟩

end Rehearsal

end MachineKeeper
