/-
  MachineKeeper.Proofs.Clock.Await — how long one waits under a context.

  Whoever waits under a context waits no longer than until the context is done. For a deadline
  that is plain. A signal is only looked at when something is sent, so there it rests on the
  changes being in the order of time (`Signal.Ordered`): if the signal is set at an instant, and
  was not before, then it has turned out to be set at a change in between.

  Proved:
  - `Ordered.change`: changes are put in their order.
  - `setAfter?_le`: a signal that is set at an instant has turned out to be set by then.
  - `await_le`: a wait ends by the first instant at which its context is done.
  - `await_interrupted`, `await_ready`, `await_never`: how it ends, if it does.
  - `le_wakes`: nobody wakes in the past.
-/

import MachineKeeper.Clock.Context

namespace MachineKeeper

namespace Signal

variable {s : Signal} {now t : Instant}

/-- Its changes are in the order of time. -/
def Ordered (s : Signal) : Prop := s.changes.Pairwise fun a b => a.1 ≤ b.1

theorem mem_place {c c' : Instant × Change} {changes : List (Instant × Change)} (h : c' ∈ place c.1 c.2 changes) :
    c' = c ∨ c' ∈ changes := by
  induction changes with
  | nil => exact .inl (List.mem_singleton.mp h)
  | cons d rest ih =>
    unfold place at h
    split at h
    · exact List.mem_cons.mp h
    · rcases List.mem_cons.mp h with rfl | h
      · exact .inr List.mem_cons_self
      · exact (ih h).imp_right (List.mem_cons_of_mem d)

theorem Ordered.change (h : s.Ordered) (t : Instant) (c : Change) : (s.change t c).Ordered := by
  obtain ⟨first, changes⟩ := s
  simp only [Ordered, Signal.change] at h ⊢
  induction changes with
  | nil => exact List.pairwise_singleton _ _
  | cons d rest ih =>
    obtain ⟨hfirst, hrest⟩ := List.pairwise_cons.mp h
    unfold place
    split
    · next hlt =>
      refine List.pairwise_cons.mpr ⟨fun d' hd' => ?_, h⟩
      rcases List.mem_cons.mp hd' with rfl | hd'
      · exact Nat.le_of_lt hlt
      · exact Nat.le_trans (Nat.le_of_lt hlt) (hfirst d' hd')
    · next hle =>
      refine List.pairwise_cons.mpr ⟨fun d' hd' => ?_, ih hrest⟩
      rcases mem_place (c := (t, c)) hd' with rfl | hd'
      · exact Nat.le_of_not_lt hle
      · exact hfirst d' hd'

/-- The value stays until something is sent. -/
theorem valueAt_succ (h : ∀ c ∈ s.changes, c.1 ≠ t + 1) : s.valueAt (t + 1) = s.valueAt t := by
  have hfilter : s.changes.filter (·.1 ≤ t + 1) = s.changes.filter (·.1 ≤ t) := by
    refine List.filter_congr fun c hc => ?_
    have := h c hc
    simp only [decide_eq_decide]
    grind
  simp only [valueAt, hfilter]

/-- A signal that is set, and was not before, turned out to be set at a change in between. -/
theorem exists_change (hle : now ≤ t) (hnow : s.valueAt now = false) (ht : s.valueAt t = true) :
    ∃ c ∈ s.changes, now < c.1 ∧ c.1 ≤ t ∧ s.valueAt c.1 = true := by
  induction t with
  | zero =>
    have : now = 0 := Nat.le_zero.mp hle
    rw [this, ht] at hnow
    cases hnow
  | succ t ih =>
    have hne : now ≠ t + 1 := by
      rintro rfl
      rw [ht] at hnow
      cases hnow
    have hlt : now ≤ t := Nat.le_of_lt_succ (Nat.lt_of_le_of_ne hle hne)
    by_cases hchange : ∃ c ∈ s.changes, c.1 = t + 1
    · obtain ⟨c, hc, hat⟩ := hchange
      exact ⟨c, hc, hat ▸ Nat.lt_succ_of_le hlt, Nat.le_of_eq hat, hat ▸ ht⟩
    · have hstays : s.valueAt (t + 1) = s.valueAt t := valueAt_succ fun c hc hat => hchange ⟨c, hc, hat⟩
      obtain ⟨c, hc, hafter, hby, hset⟩ := ih hlt (hstays ▸ ht)
      exact ⟨c, hc, hafter, Nat.le_succ_of_le hby, hset⟩

/-- The first of its sort comes no later than any other. -/
theorem find?_le {changes : List (Instant × Change)} (h : changes.Pairwise fun a b => a.1 ≤ b.1)
    {p : Instant × Change → Bool} {c : Instant × Change} (hc : c ∈ changes) (hp : p c = true) :
    ∃ c', changes.find? p = some c' ∧ c'.1 ≤ c.1 := by
  induction changes with
  | nil => cases hc
  | cons d rest ih =>
    obtain ⟨hfirst, hrest⟩ := List.pairwise_cons.mp h
    by_cases hd : p d = true
    · refine ⟨d, List.find?_cons_of_pos hd, ?_⟩
      rcases List.mem_cons.mp hc with rfl | hc
      · exact Nat.le_refl _
      · exact hfirst c hc
    · have hmem : c ∈ rest := (List.mem_cons.mp hc).resolve_left fun he => hd (he ▸ hp)
      rw [List.find?_cons_of_neg hd]
      exact ih hrest hmem

theorem setAfter?_le (h : s.Ordered) (hle : now ≤ t) (hnow : s.valueAt now = false) (ht : s.valueAt t = true) :
    ∃ u ≤ t, s.setAfter? now = some u := by
  obtain ⟨c, hc, hafter, hby, hset⟩ := exists_change hle hnow ht
  obtain ⟨c', hfind, hfirst⟩ := find?_le (p := fun c => now < c.1 ∧ s.valueAt c.1) h hc (by simp [hafter, hset])
  exact ⟨c'.1, Nat.le_trans hfirst hby, by rw [setAfter?, hfind]; rfl⟩

theorem lt_setAfter? {u : Instant} (h : s.setAfter? now = some u) : now < u := by
  obtain ⟨c, hfind, rfl⟩ := Option.map_eq_some_iff.mp h
  have := List.find?_some hfind
  simp only [decide_eq_true_eq] at this
  exact this.1

theorem set_of_setAfter? {u : Instant} (h : s.setAfter? now = some u) : s.valueAt u = true := by
  obtain ⟨c, hfind, rfl⟩ := Option.map_eq_some_iff.mp h
  have := List.find?_some hfind
  simp only [decide_eq_true_eq] at this
  exact this.2

end Signal

/-! ## The earlier of two instants -/

theorem earliest_le {a b : Option Instant} {t : Instant} (h : a = some t ∨ b = some t) :
    ∃ u ≤ t, earliest a b = some u := by
  rcases h with rfl | rfl
  · cases b with
    | none => exact ⟨t, Nat.le_refl t, rfl⟩
    | some b => exact ⟨min t b, Nat.min_le_left t b, rfl⟩
  · cases a with
    | none => exact ⟨t, Nat.le_refl t, rfl⟩
    | some a => exact ⟨min a t, Nat.min_le_right a t, rfl⟩

theorem eq_of_earliest {a b : Option Instant} {t : Instant} (h : earliest a b = some t) : a = some t ∨ b = some t := by
  cases a with
  | none => exact .inr h
  | some a =>
    cases b with
    | none => exact .inl h
    | some b =>
      cases h
      rcases Nat.le_total a b with hab | hab
      · exact .inl (by rw [Nat.min_eq_left hab])
      · exact .inr (by rw [Nat.min_eq_right hab])

theorem earliest_eq_none_iff {a b : Option Instant} : earliest a b = none ↔ a = none ∧ b = none := by
  cases a <;> cases b <;> simp [earliest]

/-- Nothing is to be earlier than the earlier of two just if nothing is to be earlier than either. -/
theorem le_earliest_iff {a b : Option Instant} {t : Instant} :
    (∀ u, earliest a b = some u → t ≤ u) ↔ (∀ u, a = some u → t ≤ u) ∧ ∀ u, b = some u → t ≤ u := by
  constructor
  · intro h
    have hle : ∀ u, a = some u ∨ b = some u → t ≤ u := by
      intro u hu
      obtain ⟨v, hv, hearliest⟩ := earliest_le hu
      exact Nat.le_trans (h v hearliest) hv
    exact ⟨fun u hu => hle u (.inl hu), fun u hu => hle u (.inr hu)⟩
  · intro h u hu
    rcases eq_of_earliest hu with hu | hu
    · exact h.1 u hu
    · exact h.2 u hu

theorem earliest_of_le {a : Option Instant} {t : Instant} (h : ∀ u, a = some u → t ≤ u) : earliest a (some t) = some t := by
  cases a with
  | none => rfl
  | some u => exact congrArg some (Nat.min_eq_right (h u rfl))

theorem any_le_iff {a : Option Instant} {t : Instant} : a.any (· ≤ t) = true ↔ ∃ u, a = some u ∧ u ≤ t := by
  simp [Option.any_eq_true]

/-- What is due and was not before is due just now. -/
theorem eq_of_any_le {a : Option Instant} {t : Instant} (hfirst : ∀ u, a = some u → t ≤ u) (h : a.any (· ≤ t) = true) :
    a = some t := by
  obtain ⟨u, hu, hle⟩ := any_le_iff.mp h
  rw [hu, Nat.le_antisymm hle (hfirst u hu)]

theorem lt_of_not_any_le {a : Option Instant} {t u : Instant} (h : ¬a.any (· ≤ t) = true) (hu : a = some u) : t < u :=
  Nat.lt_of_not_le fun hle => h (any_le_iff.mpr ⟨u, hu, hle⟩)

/-! ## Waiting -/

namespace Context

variable {signals : List Signal} {ctx : Context} {now t : Instant}

/-- The context is done when its signal is set or its deadline reached. -/
theorem interruption_ne_none_iff : ctx.interruption signals t ≠ none ↔
    (∃ s, ctx.signalOf signals = some s ∧ s.valueAt t = true) ∨ ∃ d, ctx.deadline = some d ∧ d ≤ t := by
  simp only [interruption]
  by_cases hset : (ctx.signalOf signals).any (fun s => s.valueAt t) = true
  · rw [if_pos hset]
    exact iff_of_true (by simp) (.inl (by simpa [Option.any_eq_true] using hset))
  · rw [if_neg hset]
    by_cases hdue : ctx.deadline.any (· ≤ t) = true
    · rw [if_pos hdue]
      exact iff_of_true (by simp) (.inr (by simpa [Option.any_eq_true] using hdue))
    · rw [if_neg hdue]
      simp only [Option.any_eq_true, decide_eq_true_eq, not_exists, not_and] at hset hdue
      simp only [ne_eq, not_true_eq_false, false_iff, not_or, not_exists, not_and]
      exact ⟨hset, hdue⟩

theorem unset_of_uninterrupted (h : ctx.interruption signals t = none) {s : Signal} (hs : ctx.signalOf signals = some s) :
    s.valueAt t = false :=
  Bool.eq_false_iff.mpr fun hset => interruption_ne_none_iff.mpr (.inl ⟨s, hs, hset⟩) h

theorem lt_deadline_of_uninterrupted (h : ctx.interruption signals t = none) {d : Instant} (hd : ctx.deadline = some d) : t < d :=
  Nat.lt_of_not_le fun hle => interruption_ne_none_iff.mpr (.inr ⟨d, hd, hle⟩) h

theorem ordered_of_signalOf (hordered : ∀ s ∈ signals, s.Ordered) {s : Signal} (hs : ctx.signalOf signals = some s) :
    s.Ordered := by
  obtain ⟨i, -, hi⟩ := Option.bind_eq_some_iff.mp hs
  exact hordered s (List.mem_of_getElem? hi)

/-- A context that is done at an instant, and was not before, turns out to be by then. -/
theorem done_le (hordered : ∀ s ∈ signals, s.Ordered) (hnow : ctx.interruption signals now = none) (hle : now ≤ t)
    (ht : ctx.interruption signals t ≠ none) :
    ∃ u ≤ t, earliest ((ctx.signalOf signals).bind fun s => s.setAfter? now) ctx.deadline = some u := by
  rcases interruption_ne_none_iff.mp ht with ⟨s, hs, hset⟩ | ⟨d, hd, hdue⟩
  · have hunset := unset_of_uninterrupted hnow hs
    obtain ⟨u, hu, hafter⟩ := Signal.setAfter?_le (ordered_of_signalOf hordered hs) hle hunset hset
    obtain ⟨v, hv, hearliest⟩ := earliest_le (b := ctx.deadline) (.inl hafter)
    exact ⟨v, Nat.le_trans hv hu, by rw [hs]; exact hearliest⟩
  · obtain ⟨v, hv, hearliest⟩ := earliest_le (a := (ctx.signalOf signals).bind fun s => s.setAfter? now) (.inr hd)
    exact ⟨v, Nat.le_trans hv hdue, hearliest⟩

/-- A wait under a context that is not done yet ends by the time it is. -/
theorem await_le (hordered : ∀ s ∈ signals, s.Ordered) (hnow : ctx.interruption signals now = none) (hle : now ≤ t)
    (ht : ctx.interruption signals t ≠ none) (ready : Option Instant) :
    ∃ woken, ctx.await signals now ready = some woken ∧ woken.1 ≤ t := by
  obtain ⟨u, hu, hdone⟩ := done_le hordered hnow hle ht
  obtain ⟨v, hv, hearliest⟩ := earliest_le (b := ready.map (max now)) (.inl hdone)
  simp only [await, hnow, hearliest, Option.map_some]
  exact ⟨_, rfl, Nat.le_trans hv hu⟩

/-- At one instant the context comes before what is waited for. -/
theorem await_interrupted (hordered : ∀ s ∈ signals, s.Ordered) (hnow : ctx.interruption signals now = none) (hle : now ≤ t)
    (ht : ctx.interruption signals t ≠ none) {ready : Option Instant} (hready : ∀ r, ready = some r → t ≤ r) :
    ∃ u ≤ t, ∃ why, ctx.await signals now ready = some (u, .error why) := by
  obtain ⟨u, hu, hdone⟩ := done_le hordered hnow hle ht
  have hfirst : earliest (some u) (ready.map (max now)) = some u := by
    cases ready with
    | none => rfl
    | some r => exact congrArg some (Nat.min_eq_left (Nat.le_trans hu (Nat.le_trans (hready r rfl) (Nat.le_max_right now r))))
  refine ⟨u, hu, ?_⟩
  simp only [await, hnow, hdone, hfirst, Option.map_some]
  rcases eq_of_earliest hdone with hcancel | hdeadline
  · rw [hcancel]
    split
    · exact ⟨_, rfl⟩
    · exact ⟨.cancelled, by simp⟩
  · exact ⟨.deadlineExceeded, by simp [hdeadline]⟩

/-- What is there before the context is done is waited for. -/
theorem await_ready (hlive : ∀ u, now ≤ u → u ≤ t → ctx.interruption signals u = none) (hle : now ≤ t) :
    ctx.await signals now (some t) = some (t, .ok ()) := by
  have hcancel : ∀ u, ((ctx.signalOf signals).bind fun s => s.setAfter? now) = some u → t < u := by
    intro u hu
    obtain ⟨s, hs, hafter⟩ := Option.bind_eq_some_iff.mp hu
    refine Nat.lt_of_not_le fun hut => ?_
    refine interruption_ne_none_iff.mpr (.inl ⟨s, hs, Signal.set_of_setAfter? hafter⟩) ?_
    exact hlive u (Nat.le_of_lt (Signal.lt_setAfter? hafter)) hut
  have hdeadline : ∀ d, ctx.deadline = some d → t < d := fun d hd =>
    lt_deadline_of_uninterrupted (hlive t hle (Nat.le_refl t)) hd
  have hdone : ∀ u, earliest ((ctx.signalOf signals).bind fun s => s.setAfter? now) ctx.deadline = some u → t ≤ u :=
    le_earliest_iff.mpr ⟨fun u hu => Nat.le_of_lt (hcancel u hu), fun u hu => Nat.le_of_lt (hdeadline u hu)⟩
  have hany : ∀ {a : Option Instant}, (∀ u, a = some u → t < u) → a.any (· ≤ t) = false := by
    intro a ha
    cases a with
    | none => rfl
    | some u => exact decide_eq_false (Nat.not_le_of_lt (ha u rfl))
  simp only [await, hlive now (Nat.le_refl now) hle, Option.map_some, Nat.max_eq_right hle, earliest_of_le hdone,
    hany hcancel, hany hdeadline, Bool.false_eq_true, if_false]

/-- Where neither comes the wait never ends. -/
theorem await_never (hlive : ∀ u, now ≤ u → ctx.interruption signals u = none) : ctx.await signals now none = none := by
  have hcancel : ((ctx.signalOf signals).bind fun s => s.setAfter? now) = none := by
    refine Option.eq_none_iff_forall_ne_some.mpr fun u hu => ?_
    obtain ⟨s, hs, hafter⟩ := Option.bind_eq_some_iff.mp hu
    refine interruption_ne_none_iff.mpr (.inl ⟨s, hs, Signal.set_of_setAfter? hafter⟩) ?_
    exact hlive u (Nat.le_of_lt (Signal.lt_setAfter? hafter))
  have hdeadline : ctx.deadline = none := by
    refine Option.eq_none_iff_forall_ne_some.mpr fun d hd => ?_
    have hlt := lt_deadline_of_uninterrupted (hlive (max now d) (Nat.le_max_left now d)) hd
    exact Nat.not_lt_of_le (Nat.le_max_right now d) hlt
  simp only [await, hlive now (Nat.le_refl now), hcancel, hdeadline]
  rfl

theorem le_doneFrom (h : ctx.doneFrom signals now = some t) : now ≤ t := by
  unfold doneFrom at h
  split at h
  · cases h
    exact Nat.le_refl _
  · next hnow =>
    rw [Option.not_isSome_iff_eq_none] at hnow
    rcases eq_of_earliest h with hset | hdeadline
    · obtain ⟨s, -, hafter⟩ := Option.bind_eq_some_iff.mp hset
      exact Nat.le_of_lt (Signal.lt_setAfter? hafter)
    · exact Nat.le_of_lt (lt_deadline_of_uninterrupted hnow hdeadline)

theorem le_wakes {ready : Option Instant} (h : ctx.wakes signals now ready = some t) : now ≤ t := by
  rcases eq_of_earliest h with hdone | hready
  · exact le_doneFrom hdone
  · obtain ⟨r, -, rfl⟩ := Option.map_eq_some_iff.mp hready
    exact Nat.le_max_left now r

end Context

end MachineKeeper
