/-
  MachineKeeper.Proofs.Clock.Polls — a wait under a context, poll by poll.

  A wait is a task that is polled until it has come to something. Each poll asks whether the
  signal is set and whether the deadline is reached, either of them first, and only after both
  for what is waited for. The signal comes through a channel that counts what is sent: a watcher
  looks at the value and then waits for the count to grow, over and over, and gives up once the
  sender is gone.

  A timeline is what happens in the order of time: changes of the signal, and polls. The task is
  polled in time (`Timeline.Prompt`) if it is polled at an instant at which the signal is set, after
  that, and at those of its deadline and of what it waits for. Other polls may come at any time.
  What comes after its end on a timeline is not looked at.

  Between polls the value last seen was not set. A change that sets it is followed by a poll
  before any other change, because changes come at different instants; so no such value is missed,
  however often the signal flips. That is the induction of `run_ends`, over the timeline.

  Proved:
  - `Fits.poll`, `Fits.change`: a watcher has news of whatever is still sent.
  - `Prompt.next`: a signal that is set is looked at before it changes again.
  - `exists_prompt`: whatever becomes of the signal, the task can be polled in time.
  - `run_ends`: a wait ends with the first of cancellation, deadline and what it waits for.
-/

import MachineKeeper.Proofs.Clock.Await

namespace MachineKeeper

/-! ## Channels and their watchers -/

/-- What a receiver sees of a signal. -/
structure Channel where
  value : Bool
  /-- How many values have been sent. -/
  version : Nat
  /-- Whether the sender is still there. -/
  held : Bool

namespace Channel

def apply (ch : Channel) : Signal.Change → Channel
  | .send value => { ch with value := value, version := ch.version + 1 }
  | .drop => { ch with held := false }

inductive News where
  | fresh
  | nothing
  | closed

/-- What there is for someone who has seen so many values. What was sent before the sender went is still news. -/
def news (ch : Channel) (seen : Nat) : News :=
  if ch.version ≠ seen then .fresh else if ch.held then .nothing else .closed

end Channel

/-- Who waits for a signal to be set. -/
inductive Watcher where
  | starting
  | waiting (seen : Nat)
  /-- Nobody can set it any more. -/
  | resigned

namespace Watcher

/-- Looks at the value and, if it is not set, waits for the next. -/
def look (ch : Channel) : Bool × Watcher :=
  if ch.value then (true, .waiting ch.version)
  else match ch.news ch.version with
    | .closed => (false, .resigned)
    | _ => (false, .waiting ch.version)

/-- Whether the signal turns out to be set, and what becomes of the watcher. -/
def poll (ch : Channel) : Watcher → Bool × Watcher
  | .starting => look ch
  | .waiting seen =>
    match ch.news seen with
    | .fresh => look ch
    | .nothing => (false, .waiting seen)
    | .closed => (false, .resigned)
  | .resigned => (false, .resigned)

/-- With these changes still to come the watcher misses none. -/
structure Fits (w : Watcher) (ch : Channel) (changes : List (Instant × Signal.Change)) : Prop where
  seen : ∀ seen, w = .waiting seen → seen ≤ ch.version
  resigned : w = .resigned → changes = []
  held : ch.held = false → changes = []

section

variable {w : Watcher} {ch : Channel} {changes : List (Instant × Signal.Change)} {c : Instant × Signal.Change}

theorem look_of_unset (h : ch.value = false) :
    look ch = (false, if ch.held then .waiting ch.version else .resigned) := by
  by_cases hheld : ch.held = true <;> simp [look, h, Channel.news, hheld]

/-- A poll that finds the signal unset leaves the watcher as watchful. -/
theorem Fits.poll (h : w.Fits ch changes) (hvalue : ch.value = false) :
    ∃ w', w.poll ch = (false, w') ∧ w'.Fits ch changes := by
  have hlook : ∃ w', look ch = (false, w') ∧ w'.Fits ch changes := by
    refine ⟨_, look_of_unset hvalue, ?_⟩
    by_cases hheld : ch.held = true
    · rw [if_pos hheld]
      exact ⟨fun seen hseen => by cases hseen; exact Nat.le_refl _, by simp, h.held⟩
    · rw [if_neg hheld]
      exact ⟨by simp, fun _ => h.held (Bool.eq_false_iff.mpr hheld), h.held⟩
  cases w with
  | starting => exact hlook
  | resigned => exact ⟨.resigned, rfl, h⟩
  | waiting seen =>
    by_cases hfresh : ch.version = seen
    · by_cases hheld : ch.held = true
      · exact ⟨.waiting seen, by simp [Watcher.poll, Channel.news, hfresh, hheld], h⟩
      · refine ⟨.resigned, by simp [Watcher.poll, Channel.news, hfresh, hheld], ?_⟩
        exact ⟨by simp, fun _ => h.held (Bool.eq_false_iff.mpr hheld), h.held⟩
    · simpa [Watcher.poll, Channel.news, hfresh] using hlook

theorem Fits.change (h : w.Fits ch (c :: changes)) (hdrop : c.2 = .drop → changes = []) :
    w.Fits (ch.apply c.2) changes := by
  refine ⟨?_, fun hw => absurd (h.resigned hw) (by simp), ?_⟩
  · intro seen hw
    have := h.seen seen hw
    cases hc : c.2 with
    | send value => exact Nat.le_succ_of_le this
    | drop => exact this
  · intro hheld
    cases hc : c.2 with
    | send value =>
      rw [hc] at hheld
      exact absurd (h.held hheld) (by simp)
    | drop => exact hdrop hc

/-- It is news to the watcher that the signal is set. -/
theorem Fits.poll_set (h : w.Fits ch (c :: changes)) : (w.poll (ch.apply (.send true))).1 = true := by
  cases w with
  | starting => simp [Watcher.poll, look, Channel.apply]
  | resigned => exact absurd (h.resigned rfl) (by simp)
  | waiting seen =>
    have hnew : ch.version + 1 ≠ seen := by
      have := h.seen seen rfl
      omega
    simp [Watcher.poll, look, Channel.news, Channel.apply, hnew]

end

end Watcher

/-! ## Timelines -/

inductive Moment where
  | change (c : Signal.Change)
  /-- Which of signal and deadline is asked first is anyone's choice. -/
  | poll (signalFirst : Bool)

abbrev Timeline := List (Instant × Moment)

def Moment.change? : Instant × Moment → Option (Instant × Signal.Change)
  | (t, .change c) => some (t, c)
  | (_, .poll _) => none

def Timeline.changes (ms : Timeline) : List (Instant × Signal.Change) := ms.filterMap Moment.change?

/-- They come at different instants, in order, and none follows when the sender is gone. -/
def Signal.Apart (changes : List (Instant × Signal.Change)) : Prop :=
  changes.Pairwise fun c d => c.1 < d.1 ∧ c.2 ≠ .drop

/-- The first instant at which the signal is sent that it is set. -/
def Signal.sentAt? (changes : List (Instant × Signal.Change)) : Option Instant :=
  (changes.find? (·.2 = .send true)).map (·.1)

/-- What takes part in a wait, apart from the signal: its deadline, and what is waited for. -/
structure Race (α : Type) where
  deadline : Option Instant
  ready : Option Instant
  value : α

namespace Race

variable {α : Type}

/-- Whether the context is done: signal and deadline race. -/
def pollDone (r : Race α) (t : Instant) (signalFirst : Bool) (ch : Channel) (w : Watcher) :
    Option Interruption × Watcher :=
  let (set, w) := w.poll ch
  let due := r.deadline.any (· ≤ t)
  (if set && (signalFirst || !due) then some .cancelled else if due then some .deadlineExceeded else none, w)

/-- The context goes first. -/
def poll (r : Race α) (t : Instant) (signalFirst : Bool) (ch : Channel) (w : Watcher) :
    Option (Except Interruption α) × Watcher :=
  match r.pollDone t signalFirst ch w with
  | (some why, w) => (some (.error why), w)
  | (none, w) => (if r.ready.any (· ≤ t) then some (.ok r.value) else none, w)

/-- What the wait comes to, and when. -/
def run (r : Race α) : Channel → Watcher → Timeline → Option (Instant × Except Interruption α)
  | _, _, [] => none
  | ch, w, (_, .change c) :: ms => r.run (ch.apply c) w ms
  | ch, w, (t, .poll signalFirst) :: ms =>
    match r.poll t signalFirst ch w with
    | (some result, _) => some (t, result)
    | (none, w) => r.run ch w ms

/-- The race ends with whatever comes first. A deadline comes before what is there only then; between a cancellation and
either of them it is left open. -/
inductive Ends (r : Race α) (cancel : Option Instant) : Option (Instant × Except Interruption α) → Prop
  | cancelled {t : Instant} : cancel = some t → (∀ u, r.deadline = some u → t ≤ u) → (∀ u, r.ready = some u → t ≤ u) →
      Ends r cancel (some (t, .error .cancelled))
  | expired {t : Instant} : r.deadline = some t → (∀ u, cancel = some u → t ≤ u) → (∀ u, r.ready = some u → t ≤ u) →
      Ends r cancel (some (t, .error .deadlineExceeded))
  | ready {t : Instant} : r.ready = some t → (∀ u, cancel = some u → t ≤ u) → (∀ u, r.deadline = some u → t < u) →
      Ends r cancel (some (t, .ok r.value))
  | never : cancel = none → r.deadline = none → r.ready = none → Ends r cancel none

end Race

/-- The task is polled whenever there may be something for it. -/
structure Timeline.Prompt {α : Type} (r : Race α) (ms : Timeline) : Prop where
  ordered : ms.Pairwise fun m n => m.1 ≤ n.1
  noticed : ∀ before t after, ms = before ++ (t, .change (.send true)) :: after → ∃ first, (t, .poll first) ∈ after
  woken : ∀ t, r.deadline = some t ∨ r.ready = some t → ∃ first, (t, .poll first) ∈ ms

namespace Timeline

variable {α : Type} {r : Race α} {t u : Instant} {m : Moment} {ms : Timeline}

theorem mem_of_mem_changes {c : Signal.Change} (h : (u, c) ∈ changes ms) : (u, .change c) ∈ ms := by
  obtain ⟨⟨t, m⟩, hm, hchange⟩ := List.mem_filterMap.mp h
  cases m with
  | poll first => cases hchange
  | change d =>
    cases hchange
    exact hm

theorem Prompt.le_of_mem (h : Prompt r ((t, m) :: ms)) {n : Moment} (hn : (u, n) ∈ (t, m) :: ms) : t ≤ u := by
  rcases List.mem_cons.mp hn with he | hn
  · cases he
    exact Nat.le_refl _
  · exact (List.pairwise_cons.mp h.ordered).1 _ hn

/-- What the task is woken for lies ahead. -/
theorem Prompt.le_woken (h : Prompt r ((t, m) :: ms)) (hu : r.deadline = some u ∨ r.ready = some u) : t ≤ u := by
  obtain ⟨first, hpoll⟩ := h.woken u hu
  exact h.le_of_mem hpoll

theorem Prompt.le_sent (h : Prompt r ((t, m) :: ms)) (hu : Signal.sentAt? (changes ms) = some u) : t ≤ u := by
  obtain ⟨⟨v, c⟩, hfind, hv⟩ := Option.map_eq_some_iff.mp hu
  cases hv
  exact h.le_of_mem (List.mem_cons_of_mem _ (mem_of_mem_changes (List.mem_of_find?_eq_some hfind)))

/-- What has happened may be forgotten, but for a poll at an instant the task is woken for. -/
theorem Prompt.tail (h : Prompt r ((t, m) :: ms))
    (hm : ∀ first, m = .poll first → r.deadline ≠ some t ∧ r.ready ≠ some t) : Prompt r ms := by
  refine ⟨(List.pairwise_cons.mp h.ordered).2, ?_, ?_⟩
  · intro before u after hms
    exact h.noticed ((t, m) :: before) u after (by rw [hms, List.cons_append])
  · intro u hu
    obtain ⟨first, hpoll⟩ := h.woken u hu
    rcases List.mem_cons.mp hpoll with he | hpoll
    · cases he
      obtain ⟨hdeadline, hready⟩ := hm first rfl
      rcases hu with hu | hu
      · exact absurd hu hdeadline
      · exact absurd hu hready
    · exact ⟨first, hpoll⟩

/-- Right after the signal is set comes a poll, at the same instant. -/
theorem Prompt.next (h : Prompt r ((t, .change (.send true)) :: ms))
    (hapart : Signal.Apart (changes ((t, .change (.send true)) :: ms))) : ∃ first rest, ms = (t, .poll first) :: rest := by
  obtain ⟨first, hpoll⟩ := h.noticed [] t ms rfl
  cases ms with
  | nil => cases hpoll
  | cons next rest =>
    obtain ⟨u, n⟩ := next
    have hle : t ≤ u := h.le_of_mem (n := n) (by simp)
    have hge : u ≤ t := (h.tail (by simp)).le_of_mem hpoll
    obtain rfl : t = u := Nat.le_antisymm hle hge
    cases n with
    | poll first' => exact ⟨first', rest, rfl⟩
    | change c =>
      -- no two changes come at one instant
      have hlt := ((List.pairwise_cons.mp hapart).1 (t, c) List.mem_cons_self).1
      exact absurd hlt (Nat.lt_irrefl t)

/-! ### There is always such a timeline -/

/-- With a poll put where it belongs in the order of time. -/
def wake (t : Instant) : Timeline → Timeline
  | [] => [(t, .poll true)]
  | m :: ms => if m.1 < t then m :: wake t ms else (t, .poll true) :: m :: ms

theorem mem_wake {n : Instant × Moment} : n ∈ wake t ms ↔ n = (t, .poll true) ∨ n ∈ ms := by
  induction ms with
  | nil => simp [wake]
  | cons m ms ih =>
    unfold wake
    split
    · simp only [List.mem_cons, ih]
      exact or_left_comm
    · simp only [List.mem_cons]

theorem changes_wake : changes (wake t ms) = changes ms := by
  induction ms with
  | nil => rfl
  | cons m ms ih =>
    unfold wake
    split
    · simp only [changes, List.filterMap_cons] at ih ⊢
      rw [ih]
    · rfl

theorem ordered_wake (h : ms.Pairwise fun m n => m.1 ≤ n.1) : (wake t ms).Pairwise fun m n => m.1 ≤ n.1 := by
  induction ms with
  | nil => exact List.pairwise_singleton _ _
  | cons m ms ih =>
    obtain ⟨hfirst, hrest⟩ := List.pairwise_cons.mp h
    unfold wake
    split
    · next hlt =>
      refine List.pairwise_cons.mpr ⟨fun n hn => ?_, ih hrest⟩
      rcases mem_wake.mp hn with rfl | hn
      · exact Nat.le_of_lt hlt
      · exact hfirst n hn
    · next hle =>
      refine List.pairwise_cons.mpr ⟨fun n hn => ?_, h⟩
      rcases List.mem_cons.mp hn with rfl | hn
      · exact Nat.le_of_not_lt hle
      · exact Nat.le_trans (Nat.le_of_not_lt hle) (hfirst n hn)

/-- A change on a timeline with one more poll is one of the timeline, and the polls that come after it are still there. -/
theorem eq_append_of_wake {before after : Timeline} {c : Signal.Change} (h : wake t ms = before ++ (u, .change c) :: after) :
    ∃ before' after', ms = before' ++ (u, .change c) :: after' ∧ after' ⊆ after := by
  induction ms generalizing before with
  | nil =>
    have hmem : (u, Moment.change c) ∈ wake t [] := h ▸ by simp
    simp [wake] at hmem
  | cons m ms ih =>
    unfold wake at h
    split at h
    · cases before with
      | nil =>
        obtain ⟨rfl, rfl⟩ := List.cons.inj h
        exact ⟨[], ms, rfl, fun n hn => mem_wake.mpr (.inr hn)⟩
      | cons b before =>
        obtain ⟨before', after', rfl, hafter⟩ := ih (List.cons.inj h).2
        exact ⟨m :: before', after', rfl, hafter⟩
    · cases before with
      | nil => cases (List.cons.inj h).1
      | cons b before => exact ⟨before, after, (List.cons.inj h).2, List.Subset.refl _⟩

theorem Prompt.wake (h : Prompt r ms) {r' : Race α}
    (hr : ∀ u, r'.deadline = some u ∨ r'.ready = some u → u = t ∨ r.deadline = some u ∨ r.ready = some u) :
    Prompt r' (ms.wake t) := by
  refine ⟨ordered_wake h.ordered, ?_, ?_⟩
  · intro before u after hms
    obtain ⟨before', after', hms', hafter⟩ := eq_append_of_wake hms
    obtain ⟨first, hpoll⟩ := h.noticed before' u after' hms'
    exact ⟨first, hafter hpoll⟩
  · intro u hu
    rcases hr u hu with rfl | hu
    · exact ⟨true, mem_wake.mpr (.inl rfl)⟩
    · obtain ⟨first, hpoll⟩ := h.woken u hu
      exact ⟨first, mem_wake.mpr (.inr hpoll)⟩

/-- A poll may always come first. -/
theorem Prompt.cons_poll (h : Prompt r ms) (hle : ∀ m ∈ ms, t ≤ m.1) (first : Bool) : Prompt r ((t, .poll first) :: ms) := by
  refine ⟨List.pairwise_cons.mpr ⟨hle, h.ordered⟩, ?_, ?_⟩
  · intro before u after hms
    cases before with
    | nil => cases (List.cons.inj hms).1
    | cons b before => exact h.noticed before u after (List.cons.inj hms).2
  · intro u hu
    obtain ⟨first', hpoll⟩ := h.woken u hu
    exact ⟨first', List.mem_cons_of_mem _ hpoll⟩

/-- With a poll after each of its changes. -/
theorem exists_followed (value : α) {cs : List (Instant × Signal.Change)} (hapart : Signal.Apart cs) :
    ∃ ms, changes ms = cs ∧ Prompt ⟨none, none, value⟩ ms ∧ ∀ m ∈ ms, ∃ c ∈ cs, m.1 = c.1 := by
  induction cs with
  | nil => exact ⟨[], rfl, ⟨List.Pairwise.nil, by simp, by simp⟩, by simp⟩
  | cons c cs ih =>
    obtain ⟨t, c⟩ := c
    obtain ⟨hfirst, hrest⟩ := List.pairwise_cons.mp hapart
    obtain ⟨ms, rfl, hprompt, htimes⟩ := ih hrest
    have hlater : ∀ m ∈ ms, t ≤ m.1 := by
      intro m hm
      obtain ⟨d, hd, he⟩ := htimes m hm
      exact he ▸ Nat.le_of_lt (hfirst d hd).1
    have hpolled := hprompt.cons_poll hlater true
    refine ⟨(t, .change c) :: (t, .poll true) :: ms, rfl, ⟨?_, ?_, by simp⟩, ?_⟩
    · refine List.pairwise_cons.mpr ⟨?_, hpolled.ordered⟩
      intro m hm
      rcases List.mem_cons.mp hm with rfl | hm
      · exact Nat.le_refl t
      · exact hlater m hm
    · intro before u after hms
      cases before with
      | nil =>
        cases hms
        exact ⟨true, List.mem_cons_self⟩
      | cons b before => exact hpolled.noticed before u after (List.cons.inj hms).2
    · intro m hm
      rcases List.mem_cons.mp hm with rfl | hm
      · exact ⟨_, List.mem_cons_self, rfl⟩
      · rcases List.mem_cons.mp hm with rfl | hm
        · exact ⟨_, List.mem_cons_self, rfl⟩
        · obtain ⟨d, hd, he⟩ := htimes m hm
          exact ⟨d, List.mem_cons_of_mem _ hd, he⟩

/-- Whatever becomes of the signal, the task can be polled in time. -/
theorem exists_prompt {now : Instant} (hdeadline : ∀ u, r.deadline = some u → now ≤ u) (hready : ∀ u, r.ready = some u → now ≤ u)
    {cs : List (Instant × Signal.Change)} (hapart : Signal.Apart cs) (hlater : ∀ c ∈ cs, now ≤ c.1) (first : Bool) :
    ∃ ms, changes ms = cs ∧ Prompt r ((now, .poll first) :: ms) := by
  obtain ⟨deadline, ready, value⟩ := r
  obtain ⟨ms, hms, hprompt, htimes⟩ := exists_followed value hapart
  have hafter : ∀ m ∈ ms, now ≤ m.1 := by
    intro m hm
    obtain ⟨c, hc, he⟩ := htimes m hm
    exact he ▸ hlater c hc
  obtain ⟨ms', hms', hprompt', hafter'⟩ : ∃ ms', changes ms' = cs ∧ Prompt ⟨deadline, none, value⟩ ms' ∧ ∀ m ∈ ms', now ≤ m.1 := by
    cases deadline with
    | none => exact ⟨ms, hms, hprompt, hafter⟩
    | some d =>
      refine ⟨ms.wake d, changes_wake.trans hms, hprompt.wake (by simp), ?_⟩
      intro m hm
      rcases mem_wake.mp hm with rfl | hm
      · exact hdeadline d rfl
      · exact hafter m hm
  cases ready with
  | none => exact ⟨ms', hms', hprompt'.cons_poll hafter' first⟩
  | some f =>
    refine ⟨ms'.wake f, changes_wake.trans hms', (hprompt'.wake ?_).cons_poll ?_ first⟩
    · intro u hu
      rcases hu with hu | hu
      · exact .inr (.inl hu)
      · exact .inl (Option.some.inj hu).symm
    · intro m hm
      rcases mem_wake.mp hm with rfl | hm
      · exact hready f rfl
      · exact hafter' m hm

end Timeline

/-! ## The end of a race -/

namespace Race

variable {α : Type} {r : Race α} {t : Instant} {first : Bool} {ch : Channel} {w w' : Watcher} {ms : Timeline}

/-- A poll of a signal that is not set: the deadline, and then what is waited for. -/
theorem run_poll_unset (h : w.poll ch = (false, w')) : r.run ch w ((t, .poll first) :: ms) =
    if r.deadline.any (· ≤ t) then some (t, .error .deadlineExceeded)
    else if r.ready.any (· ≤ t) then some (t, .ok r.value)
    else r.run ch w' ms := by
  by_cases hdue : r.deadline.any (· ≤ t) = true
  · simp [run, poll, pollDone, h, hdue]
  · by_cases hready : r.ready.any (· ≤ t) = true
    · simp [run, poll, pollDone, h, hdue, hready]
    · simp [run, poll, pollDone, h, hdue, hready]

theorem run_poll_set (h : (w.poll ch).1 = true) : r.run ch w ((t, .poll first) :: ms) =
    some (t, .error (if first || !r.deadline.any (· ≤ t) then .cancelled else .deadlineExceeded)) := by
  by_cases hdue : r.deadline.any (· ≤ t) = true
  · cases first <;> simp [run, poll, pollDone, h, hdue]
  · simp [run, poll, pollDone, h, hdue]

/-- **A wait that is polled in time ends with the first of cancellation, deadline and what it waits for.** -/
theorem run_ends (hprompt : Timeline.Prompt r ms) (hapart : Signal.Apart (Timeline.changes ms)) (hfits : w.Fits ch (Timeline.changes ms))
    (hunset : ch.value = false) : r.Ends (Signal.sentAt? (Timeline.changes ms)) (r.run ch w ms) := by
  induction ms generalizing ch w with
  | nil =>
    have hnever : ∀ u, ¬(r.deadline = some u ∨ r.ready = some u) := by
      intro u hu
      obtain ⟨first, hpoll⟩ := hprompt.woken u hu
      cases hpoll
    refine .never rfl ?_ ?_
    · exact Option.eq_none_iff_forall_ne_some.mpr fun u hu => hnever u (.inl hu)
    · exact Option.eq_none_iff_forall_ne_some.mpr fun u hu => hnever u (.inr hu)
  | cons moment ms ih =>
    obtain ⟨t, m⟩ := moment
    have hdeadline : ∀ u, r.deadline = some u → t ≤ u := fun u hu => hprompt.le_woken (.inl hu)
    have hready : ∀ u, r.ready = some u → t ≤ u := fun u hu => hprompt.le_woken (.inr hu)
    cases m with
    | poll first =>
      have hsent : ∀ u, Signal.sentAt? (Timeline.changes ms) = some u → t ≤ u := fun u hu => hprompt.le_sent hu
      obtain ⟨w', hpoll, hfits'⟩ := hfits.poll hunset
      rw [run_poll_unset hpoll]
      by_cases hdue : r.deadline.any (· ≤ t) = true
      · rw [if_pos hdue]
        exact .expired (eq_of_any_le hdeadline hdue) hsent hready
      · rw [if_neg hdue]
        have hlater : ∀ u, r.deadline = some u → t < u := fun u hu => lt_of_not_any_le hdue hu
        by_cases hthere : r.ready.any (· ≤ t) = true
        · rw [if_pos hthere]
          exact .ready (eq_of_any_le hready hthere) hsent hlater
        · rw [if_neg hthere]
          refine ih (hprompt.tail fun _ _ => ⟨?_, ?_⟩) hapart hfits' hunset
          · exact fun hu => Nat.lt_irrefl t (hlater t hu)
          · exact fun hu => Nat.lt_irrefl t (lt_of_not_any_le hthere hu)
    | change c =>
      by_cases hset : c = .send true
      · subst hset
        obtain ⟨first, rest, rfl⟩ := hprompt.next hapart
        have hsent : Signal.sentAt? (Timeline.changes ((t, .change (.send true)) :: (t, .poll first) :: rest)) = some t := rfl
        rw [run, run_poll_set hfits.poll_set, hsent]
        by_cases hfirst : (first || !r.deadline.any (· ≤ t)) = true
        · rw [if_pos hfirst]
          exact .cancelled rfl hdeadline hready
        · rw [if_neg hfirst]
          simp only [Bool.or_eq_true, not_or, Bool.not_eq_true, Bool.not_eq_false'] at hfirst
          have hsooner : ∀ u, some t = some u → t ≤ u := fun u hu => Nat.le_of_eq (Option.some.inj hu)
          exact .expired (eq_of_any_le hdeadline hfirst.2) hsooner hready
      · have hchanges : Timeline.changes ((t, .change c) :: ms) = (t, c) :: Timeline.changes ms := rfl
        rw [hchanges] at hapart hfits ⊢
        obtain ⟨hfirst, hrest⟩ := List.pairwise_cons.mp hapart
        have hdrop : c = .drop → Timeline.changes ms = [] := by
          intro hc
          exact List.eq_nil_iff_forall_not_mem.mpr fun d hd => (hfirst d hd).2 hc
        have hsent : Signal.sentAt? ((t, c) :: Timeline.changes ms) = Signal.sentAt? (Timeline.changes ms) := by
          rw [Signal.sentAt?, List.find?_cons_of_neg (by simpa using hset), Signal.sentAt?]
        have hunset' : (ch.apply c).value = false := by
          cases c with
          | drop => exact hunset
          | send value =>
            cases value with
            | false => rfl
            | true => exact absurd rfl hset
        rw [hsent, run]
        exact ih (hprompt.tail (by simp)) hrest (hfits.change hdrop) hunset'

end Race

end MachineKeeper
