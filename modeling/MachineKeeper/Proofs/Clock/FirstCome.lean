/-
  MachineKeeper.Proofs.Clock.FirstCome — what a context does to a wait.

  A context comes from a root by timeouts, one inside the other (`Derives`). Each moves its
  deadline at most forward and none changes its signal, so what ends a context ends all that come
  from it, and in the same way.

  A wait under a context is told here by the instants at which `true` is sent, which say nothing
  of values sent in between or of the sender being gone. `Context.await` goes by the value of the
  signal instead, so for a signal that is not set at first the two have to be the same
  (`setAfter?_eq`); and the wait may be carried out poll by poll (`Context.polled`).

  Proved:
  - `Derives.deadline_eq`: the deadline is the least of all given on the way.
  - `Derives.interruption`: who comes from a context that is done is done.
  - `setAfter?_eq`: a signal turns out to be set when it is sent `true`.
  - `await_ends`, `polled_ends`: a wait ends with the first of cancellation, deadline and what it
    waits for, as it is computed and as it is polled.
  - `first_come`: all of it.
-/

import MachineKeeper.Proofs.Clock.Polls

namespace MachineKeeper

/-! ## Signals that change at different instants -/

namespace Signal

variable {s : Signal} {now t u : Instant} {c : Change}

def changesAfter (s : Signal) (t : Instant) : List (Instant × Change) := s.changes.filter (t < ·.1)

theorem Apart.ordered (h : Apart s.changes) : s.Ordered := h.imp fun hcd => Nat.le_of_lt hcd.1

theorem Apart.around {changes : List (Instant × Change)} (h : Apart changes) (hc : (t, c) ∈ changes) :
    ∃ before after, changes = before ++ (t, c) :: after ∧ (∀ d ∈ before, d.1 < t) ∧ ∀ d ∈ after, t < d.1 ∧ c ≠ .drop := by
  obtain ⟨before, after, rfl⟩ := List.append_of_mem hc
  obtain ⟨-, hafter, hbefore⟩ := List.pairwise_append.mp h
  refine ⟨before, after, rfl, ?_, (List.pairwise_cons.mp hafter).1⟩
  intro d hd
  exact (hbefore d hd (t, c) List.mem_cons_self).1

theorem valueAt_of_mem (h : Apart s.changes) (hc : (t + 1, c) ∈ s.changes) : s.valueAt (t + 1) = c.apply (s.valueAt t) := by
  obtain ⟨before, after, hchanges, hbefore, hafter⟩ := h.around hc
  have hpast : before.filter (fun d => decide (d.1 ≤ t)) = before :=
    List.filter_eq_self.mpr fun d hd => by simpa using Nat.le_of_lt_succ (hbefore d hd)
  have hpast' : before.filter (fun d => decide (d.1 ≤ t + 1)) = before :=
    List.filter_eq_self.mpr fun d hd => by simpa using Nat.le_of_lt (hbefore d hd)
  have hahead : ∀ v ≤ t + 1, after.filter (fun d => decide (d.1 ≤ v)) = [] := by
    intro v hv
    refine List.filter_eq_nil_iff.mpr fun d hd => ?_
    simpa using Nat.lt_of_le_of_lt hv (hafter d hd).1
  have hnot : ¬t + 1 ≤ t := Nat.not_succ_le_self t
  simp only [valueAt, hchanges, List.filter_append, List.filter_cons, hpast, hpast', hahead t (Nat.le_succ t),
    hahead (t + 1) (Nat.le_refl _), Nat.le_refl, hnot, decide_true, decide_false, if_true, Bool.false_eq_true, if_false,
    List.foldl_append, List.foldl_cons, List.foldl_nil, List.append_nil]

theorem set_of_sent (h : Apart s.changes) (hc : (t, .send true) ∈ s.changes) (hlt : now < t) : s.valueAt t = true := by
  cases t with
  | zero => exact absurd hlt (Nat.not_lt_zero now)
  | succ t => rw [valueAt_of_mem h hc, Change.apply]

/-- A signal that is set, and was not before, has been sent so in between. -/
theorem exists_sent (h : Apart s.changes) (hle : now ≤ t) (hnow : s.valueAt now = false) (ht : s.valueAt t = true) :
    ∃ u, (u, .send true) ∈ s.changes ∧ now < u ∧ u ≤ t := by
  induction t using Nat.strongRecOn with
  | ind t ih =>
    obtain ⟨⟨u, c⟩, hc, hafter, hby, hset⟩ := exists_change hle hnow ht
    cases u with
    | zero => exact absurd hafter (Nat.not_lt_zero now)
    | succ u =>
      rw [valueAt_of_mem h hc] at hset
      cases c with
      | send value =>
        obtain rfl : value = true := hset
        exact ⟨u + 1, hc, hafter, hby⟩
      | drop =>
        -- it was set before its sender went
        obtain ⟨v, hv, hlt, hle'⟩ := ih u hby (Nat.le_of_lt_succ hafter) hset
        exact ⟨v, hv, hlt, Nat.le_trans hle' (Nat.le_of_succ_le hby)⟩

theorem mem_of_sentAt? (h : sentAt? (s.changesAfter now) = some u) : (u, .send true) ∈ s.changes ∧ now < u := by
  obtain ⟨⟨v, c⟩, hfind, hv⟩ := Option.map_eq_some_iff.mp h
  have hc : c = .send true := by simpa using List.find?_some hfind
  have hmem := List.mem_filter.mp (List.mem_of_find?_eq_some hfind)
  cases hv
  rw [hc] at hmem
  exact ⟨hmem.1, by simpa using hmem.2⟩

theorem sentAt?_le (h : Apart s.changes) (hu : (u, .send true) ∈ s.changes) (hlt : now < u) :
    ∃ v ≤ u, sentAt? (s.changesAfter now) = some v := by
  have hmem : (u, Change.send true) ∈ s.changesAfter now := List.mem_filter.mpr ⟨hu, by simpa using hlt⟩
  obtain ⟨c, hfind, hle⟩ := find?_le (p := (·.2 = .send true)) (List.Pairwise.filter _ h.ordered) hmem (by simp)
  refine ⟨c.1, hle, ?_⟩
  rw [sentAt?, changesAfter, hfind, Option.map_some]

theorem setAfter?_eq (h : Apart s.changes) (hnow : s.valueAt now = false) :
    s.setAfter? now = sentAt? (s.changesAfter now) := by
  have hsent : ∀ v, s.setAfter? now = some v → ∃ u ≤ v, sentAt? (s.changesAfter now) = some u := by
    intro v hv
    obtain ⟨u, hu, hafter, hby⟩ := exists_sent h (Nat.le_of_lt (lt_setAfter? hv)) hnow (set_of_setAfter? hv)
    obtain ⟨w, hw, hsent⟩ := sentAt?_le h hu hafter
    exact ⟨w, Nat.le_trans hw hby, hsent⟩
  cases hfirst : sentAt? (s.changesAfter now) with
  | none =>
    refine Option.eq_none_iff_forall_ne_some.mpr fun v hv => ?_
    obtain ⟨u, -, hu⟩ := hsent v hv
    rw [hfirst] at hu
    cases hu
  | some u =>
    obtain ⟨hu, hafter⟩ := mem_of_sentAt? hfirst
    obtain ⟨v, hv, hset⟩ := setAfter?_le h.ordered (Nat.le_of_lt hafter) hnow (set_of_sent h hu hafter)
    obtain ⟨w, hw, hsent⟩ := hsent v hset
    rw [hfirst] at hsent
    cases hsent
    rw [hset, Nat.le_antisymm hv hw]

theorem changesAfter_of_not_open (h : Apart s.changes) (hopen : s.openAt now = false) : s.changesAfter now = [] := by
  obtain ⟨⟨t, c⟩, hc, hdropped⟩ := List.all_eq_false.mp hopen
  simp only [ne_eq, decide_not, Bool.or_eq_true, Bool.not_eq_true', decide_eq_false_iff_not, decide_eq_true_eq, not_or,
    Decidable.not_not, Nat.not_lt] at hdropped
  obtain ⟨rfl, hle⟩ := hdropped
  obtain ⟨before, after, hchanges, hbefore, hafter⟩ := h.around hc
  refine List.filter_eq_nil_iff.mpr fun d hd => ?_
  rw [hchanges] at hd
  rcases List.mem_append.mp hd with hd | hd
  · have := hbefore d hd
    simpa using Nat.le_trans (Nat.le_of_lt this) hle
  · rcases List.mem_cons.mp hd with rfl | hd
    · simpa using hle
    · exact absurd rfl (hafter d hd).2

end Signal

namespace Context

/-! ## Contexts that come from others -/

/-- From the root by these timeouts, each given at a reading of the clock. -/
inductive Derives (root : Context) : List (Instant × Nat) → Context → Prop where
  | root : Derives root [] root
  | timeout {nesting : List (Instant × Nat)} {ctx child : Context} {now timeout : Nat} :
      Derives root nesting ctx → ctx.withTimeout? now timeout = some child →
      Derives root (nesting ++ [(now, timeout)]) child

section

variable {root ctx child : Context} {nesting : List (Instant × Nat)} {signals : List Signal} {now t : Instant}

theorem eq_expiringAt {timeout : Nat} (h : ctx.withTimeout? now timeout = some child) :
    child = ctx.expiringAt (now + timeout) := by
  obtain ⟨deadline, hdeadline, rfl⟩ := Option.map_eq_some_iff.mp h
  unfold Deadline.after? at hdeadline
  split at hdeadline
  · cases hdeadline
    rfl
  · cases hdeadline

theorem Derives.signal_eq (h : Derives root nesting ctx) : ctx.signal = root.signal := by
  induction h with
  | root => rfl
  | timeout _ hchild ih =>
    rw [eq_expiringAt hchild]
    exact ih

theorem min?_snoc (ts : List Nat) (t : Nat) : (ts ++ [t]).min? = earliest ts.min? (some t) := by
  cases ts with
  | nil => rfl
  | cons u ts =>
    have hfold : (ts ++ [t]).foldl min u = min (ts.foldl min u) t := List.foldl_append
    rw [List.cons_append, List.min?_cons', List.min?_cons', hfold]
    rfl

theorem Derives.deadline_eq (h : Derives root nesting ctx) (hroot : root.deadline = none) :
    ctx.deadline = (nesting.map fun given => given.1 + given.2).min? := by
  induction h with
  | root => exact hroot
  | timeout _ hchild ih =>
    rw [eq_expiringAt hchild, List.map_append, List.map_singleton, min?_snoc, ← ih]
    rfl

theorem Derives.deadline_le (h : Derives ctx nesting child) {d : Instant} (hd : ctx.deadline = some d) :
    ∃ d' ≤ d, child.deadline = some d' := by
  induction h with
  | root => exact ⟨d, Nat.le_refl d, hd⟩
  | timeout _ hchild ih =>
    obtain ⟨d', hle, hd'⟩ := ih
    rw [eq_expiringAt hchild]
    obtain ⟨e, hle', he⟩ := earliest_le (b := some _) (.inl hd')
    exact ⟨e, Nat.le_trans hle' hle, he⟩

/-- Whoever comes from a context that is done is done, and for the same reason. -/
theorem Derives.interruption (h : Derives ctx nesting child) {why : Interruption}
    (hwhy : ctx.interruption signals t = some why) : child.interruption signals t = some why := by
  have hsignal : child.signalOf signals = ctx.signalOf signals := by
    simp only [signalOf, h.signal_eq]
  unfold Context.interruption at hwhy ⊢
  rw [hsignal]
  by_cases hset : (ctx.signalOf signals).any (fun s => s.valueAt t) = true
  · rw [if_pos hset] at hwhy ⊢
    exact hwhy
  · rw [if_neg hset] at hwhy ⊢
    by_cases hdue : ctx.deadline.any (· ≤ t) = true
    · rw [if_pos hdue] at hwhy
      obtain ⟨d, hd, hle⟩ := any_le_iff.mp hdue
      obtain ⟨d', hle', hd'⟩ := h.deadline_le hd
      rw [if_pos (any_le_iff.mpr ⟨d', hd', Nat.le_trans hle' hle⟩)]
      exact hwhy
    · rw [if_neg hdue] at hwhy
      cases hwhy

end

/-! ## Waits -/

variable {signals : List Signal} {ctx : Context} {now : Instant}

/-- The changes of its signal that are still to come. -/
def changesAfter (signals : List Signal) (ctx : Context) (now : Instant) : List (Instant × Signal.Change) :=
  match ctx.signalOf signals with
  | none => []
  | some s => s.changesAfter now

/-- What the wait begins with: a channel, as the signal has left it, and a watcher. Values are counted from now on. -/
def watched (signals : List Signal) (ctx : Context) (now : Instant) : Channel × Watcher :=
  match ctx.signalOf signals with
  | none => (⟨false, 0, false⟩, .resigned)
  | some s => (⟨s.valueAt now, 0, s.openAt now⟩, .starting)

def race {α : Type} (ctx : Context) (ready : Option Instant) (value : α) : Race α := ⟨ctx.deadline, ready, value⟩

/-- The wait that is polled now, and then whenever the timeline has it polled. -/
def polled {α : Type} (signals : List Signal) (ctx : Context) (now : Instant) (ready : Option Instant) (value : α)
    (signalFirst : Bool) (ms : Timeline) : Option (Instant × Except Interruption α) :=
  match ctx.interruption signals now with
  | some why => some (now, .error why)
  | none =>
    let (ch, w) := ctx.watched signals now
    (ctx.race ready value).run ch w ((now, .poll signalFirst) :: ms)

/-- A timeline of this wait: the signal changes as it does, and the wait is polled in time. -/
structure Polls {α : Type} (signals : List Signal) (ctx : Context) (now : Instant) (ready : Option Instant) (value : α)
    (signalFirst : Bool) (ms : Timeline) : Prop where
  changes : Timeline.changes ms = ctx.changesAfter signals now
  prompt : Timeline.Prompt (ctx.race ready value) ((now, .poll signalFirst) :: ms)

theorem apart_changesAfter (hapart : ∀ s, ctx.signalOf signals = some s → Signal.Apart s.changes) :
    Signal.Apart (ctx.changesAfter signals now) := by
  unfold changesAfter
  cases hs : ctx.signalOf signals with
  | none => exact List.Pairwise.nil
  | some s => exact List.Pairwise.filter _ (hapart s hs)

theorem await_ends (hapart : ∀ s, ctx.signalOf signals = some s → Signal.Apart s.changes)
    (hnow : ctx.interruption signals now = none) {ready : Option Instant} (hready : ∀ u, ready = some u → now ≤ u) :
    (ctx.race ready ()).Ends (Signal.sentAt? (ctx.changesAfter signals now)) (ctx.await signals now ready) := by
  have hcancel : ((ctx.signalOf signals).bind fun s => s.setAfter? now) = Signal.sentAt? (ctx.changesAfter signals now) := by
    unfold changesAfter
    cases hs : ctx.signalOf signals with
    | none => rfl
    | some s => exact Signal.setAfter?_eq (hapart s hs) (unset_of_uninterrupted hnow hs)
  have hmax : ready.map (max now) = ready := by
    cases ready with
    | none => rfl
    | some u => exact congrArg some (Nat.max_eq_right (hready u rfl))
  simp only [await, hnow, hcancel, hmax]
  generalize Signal.sentAt? (ctx.changesAfter signals now) = cancel
  cases hfirst : earliest (earliest cancel ctx.deadline) ready with
  | none =>
    obtain ⟨hdone, hready⟩ := earliest_eq_none_iff.mp hfirst
    obtain ⟨hcancel, hdeadline⟩ := earliest_eq_none_iff.mp hdone
    exact .never hcancel hdeadline hready
  | some t =>
    obtain ⟨hdone, hthere⟩ := le_earliest_iff.mp fun u hu => Nat.le_of_eq (Option.some.inj (hfirst.symm.trans hu))
    obtain ⟨hcancelled, hexpired⟩ := le_earliest_iff.mp hdone
    rw [Option.map_some]
    by_cases hdue : ctx.deadline.any (· ≤ t) = true
    · rw [if_pos hdue]
      exact .expired (eq_of_any_le hexpired hdue) hcancelled hthere
    · rw [if_neg hdue]
      by_cases hset : cancel.any (· ≤ t) = true
      · rw [if_pos hset]
        exact .cancelled (eq_of_any_le hcancelled hset) hexpired hthere
      · rw [if_neg hset]
        refine .ready ?_ hcancelled fun u hu => lt_of_not_any_le hdue hu
        rcases eq_of_earliest hfirst with hearliest | hready
        · rcases eq_of_earliest hearliest with hu | hu
          · exact absurd (lt_of_not_any_le hset hu) (Nat.lt_irrefl t)
          · exact absurd (lt_of_not_any_le hdue hu) (Nat.lt_irrefl t)
        · exact hready

theorem polled_ends (hapart : ∀ s, ctx.signalOf signals = some s → Signal.Apart s.changes)
    (hnow : ctx.interruption signals now = none) {α : Type} {ready : Option Instant} {value : α} {signalFirst : Bool} {ms : Timeline}
    (h : ctx.Polls signals now ready value signalFirst ms) :
    (ctx.race ready value).Ends (Signal.sentAt? (ctx.changesAfter signals now))
      (ctx.polled signals now ready value signalFirst ms) := by
  have hchanges : Timeline.changes ((now, .poll signalFirst) :: ms) = ctx.changesAfter signals now := h.changes
  rw [← hchanges, polled, hnow]
  dsimp only
  apply Race.run_ends h.prompt
  · rw [hchanges]
    exact apart_changesAfter hapart
  · rw [hchanges, changesAfter, watched]
    cases hs : ctx.signalOf signals with
    | none => exact ⟨by simp, fun _ => rfl, fun _ => rfl⟩
    | some s => exact ⟨by simp, by simp, Signal.changesAfter_of_not_open (hapart s hs)⟩
  · rw [watched]
    cases hs : ctx.signalOf signals with
    | none => rfl
    | some s => exact unset_of_uninterrupted hnow hs

theorem exists_polls (hapart : ∀ s, ctx.signalOf signals = some s → Signal.Apart s.changes)
    (hnow : ctx.interruption signals now = none) {ready : Option Instant} (hready : ∀ u, ready = some u → now ≤ u)
    {α : Type} (value : α) (signalFirst : Bool) : ∃ ms, ctx.Polls signals now ready value signalFirst ms := by
  have hdeadline : ∀ d, ctx.deadline = some d → now ≤ d := fun d hd =>
    Nat.le_of_lt (lt_deadline_of_uninterrupted hnow hd)
  have hlater : ∀ c ∈ ctx.changesAfter signals now, now ≤ c.1 := by
    intro c hc
    unfold changesAfter at hc
    cases hs : ctx.signalOf signals with
    | none =>
      rw [hs] at hc
      cases hc
    | some s =>
      rw [hs] at hc
      exact Nat.le_of_lt (of_decide_eq_true (List.mem_filter.mp hc).2)
  obtain ⟨ms, hchanges, hprompt⟩ := Timeline.exists_prompt (r := ctx.race ready value) hdeadline hready
    (apart_changesAfter hapart) hlater signalFirst
  exact ⟨ms, hchanges, hprompt⟩

/-- **A context that comes from a root by any timeouts has the least of their deadlines, and is done wherever one it comes
from is. A wait under it that begins when it is not done ends with the first of these: `true` is sent, its deadline, what
it waits for is there.** That is so as it is computed, and on every timeline on which it is polled in time. -/
theorem first_come {root ctx : Context} {nesting : List (Instant × Nat)} (hroot : root.deadline = none)
    (h : Derives root nesting ctx) :
    ctx.deadline = (nesting.map fun given => given.1 + given.2).min? ∧
    (∀ further child, Derives ctx further child → ∀ signals t why,
      ctx.interruption signals t = some why → child.interruption signals t = some why) ∧
    ∀ signals, (∀ s, ctx.signalOf signals = some s → Signal.Apart s.changes) → ∀ (now : Instant) (delay : Option Nat),
      let cancel := Signal.sentAt? (ctx.changesAfter signals now)
      let ready := delay.map (now + ·)
      (∀ why, ctx.interruption signals now = some why →
        ctx.await signals now ready = some (now, .error why) ∧
          ∀ (α : Type) (value : α) signalFirst ms, ctx.polled signals now ready value signalFirst ms = some (now, .error why)) ∧
      (ctx.interruption signals now = none →
        (ctx.race ready ()).Ends cancel (ctx.await signals now ready) ∧
          ∀ (α : Type) (value : α) signalFirst,
            (∃ ms, ctx.Polls signals now ready value signalFirst ms) ∧
            ∀ ms, ctx.Polls signals now ready value signalFirst ms →
              (ctx.race ready value).Ends cancel (ctx.polled signals now ready value signalFirst ms)) := by
  refine ⟨h.deadline_eq hroot, fun further child hchild signals t why => hchild.interruption, ?_⟩
  intro signals hapart now delay cancel ready
  have hready : ∀ u, ready = some u → now ≤ u := by
    intro u hu
    obtain ⟨d, -, rfl⟩ := Option.map_eq_some_iff.mp hu
    exact Nat.le_add_right now d
  refine ⟨?_, ?_⟩
  · intro why hwhy
    simp only [await, polled, hwhy, implies_true, and_self]
  · intro hnow
    refine ⟨await_ends hapart hnow hready, ?_⟩
    intro α value signalFirst
    refine ⟨exists_polls hapart hnow hready value signalFirst, ?_⟩
    intro ms hms
    exact polled_ends hapart hnow hms

/-- Two timeouts end at 50 and at 30. The signal is sent `false`, then `true` at 20, and its sender goes at 25. -/
theorem first_come_cancelled_at_twenty :
    let ctx : Context := ⟨some 0, some 30⟩
    let signals : List Signal := [⟨false, [(5, .send false), (20, .send true), (25, .drop)]⟩]
    Derives (withCancel 0) [(0, 50), (10, 20)] ctx ∧
    ctx.await signals 12 (some 42) = some (20, .error .cancelled) ∧
    ∃ ms, ctx.Polls signals 12 (some 42) 7 false ms ∧ ctx.polled signals 12 (some 42) 7 false ms = some (20, .error .cancelled) := by
  intro ctx signals
  have hctx : Derives (withCancel 0) [(0, 50), (10, 20)] ctx := .timeout (.timeout .root rfl) rfl
  have hapart : ∀ s, ctx.signalOf signals = some s → Signal.Apart s.changes := by
    intro s hs
    cases hs
    simp [Signal.Apart]
  have hcancel : Signal.sentAt? (ctx.changesAfter signals 12) = some 20 := rfl
  have hends : ∀ {α : Type} {value : α} {result}, (ctx.race (some 42) value).Ends (some 20) result →
      result = some (20, .error .cancelled) := by
    intro α value result hresult
    cases hresult with
    | cancelled ht => cases ht; rfl
    | expired ht hfirst => cases ht; exact absurd (hfirst 20 rfl) (by decide)
    | ready ht hfirst => cases ht; exact absurd (hfirst 20 rfl) (by decide)
    | never ht => cases ht
  obtain ⟨-, -, hwaits⟩ := first_come rfl hctx
  obtain ⟨-, hwait⟩ := hwaits signals hapart 12 (some 30)
  obtain ⟨hawait, hpolled⟩ := hwait rfl
  obtain ⟨⟨ms, hms⟩, hresult⟩ := hpolled Nat 7 false
  rw [hcancel] at hawait
  exact ⟨hctx, hends hawait, ms, hms, hends (hcancel ▸ hresult ms hms)⟩

end Context

end MachineKeeper
