/-
  MachineKeeper.Proofs.Rehearsal.Interleaving — a pass comes to the same in whatever order.

  In a crowd all keys are synced at the same time, and a schedule says whose turn it is: that sync
  makes one call, and the clocks show then what the schedule says (`Crowd.step`). Any sync may have
  any turn. All that is asked of the schedule is that no context is done before a call is made
  under it.

  Each sync keeps to its lane, and no two machines share an instance, so what a sync is told does
  not depend on the others. It goes the way it would go if it had the world to itself (`Solo`):
  wherever it stands, there is a twin of it that stands there alone, in a world that matches. So
  all schedules that come to an end come to the same end, and a schedule does come to it if each
  key gets the turns that it would take alone.

  One of them is to sync the keys one after the other, and a pass does just that, as none of them
  has to wait.

  Proved:
  - `turn_cases`, `inv_step`: whoever takes a turn, the crowd keeps to its lanes, each sync with a
    twin that is alone.
  - `inv_run`: so it does under any schedule that makes its calls in time.
  - `timely_of_still`: where the clock stands still, any schedule does.
  - `done_of_turns`: with enough turns for each, all come to their end.
  - `agree_of_done`: two schedules that come to an end leave the same, up to times.
  - `inTurn_runs`: one after the other is a schedule, and all its calls are in time.
  - `any_order`: all of it together.
-/

import MachineKeeper.Proofs.Rehearsal.Lanes

namespace MachineKeeper

/-! ## Summaries -/

namespace Summary

theorem count_comm (s : Summary) (a b : Attempt) : (s.count a).count b = (s.count b).count a := by
  have hfields : ∀ x : Attempt, (∃ n m, ∀ s : Summary, s.count x = ⟨s.reconciled + n, s.failed, s.requeued + m⟩) ∨
      ∀ s : Summary, s.count x = ⟨s.reconciled, s.failed + 1, s.requeued⟩ := by
    intro x
    match x with
    | .crashed => exact .inr fun _ => rfl
    | .finished (.error _) => exact .inr fun _ => rfl
    | .finished (.ok requeue) =>
      left
      cases hdone : requeue.isDone with
      | true => exact ⟨1, 0, fun s => by simp [count, hdone]⟩
      | false => exact ⟨1, 1, fun s => by simp [count, hdone]⟩
  rcases hfields a with ⟨n, m, ha⟩ | ha <;> rcases hfields b with ⟨n', m', hb⟩ | hb <;>
    simp [ha, hb, Nat.add_comm, Nat.add_left_comm]

/-- The order in which the keys end is of no account. -/
theorem ofAttempts_perm {as bs : List Attempt} (h : as.Perm bs) : ofAttempts as = ofAttempts bs :=
  h.foldl_eq' (fun _ _ _ _ s => count_comm s _ _) zero

end Summary

namespace Rehearsal

/-! ## One after the other -/

/-- Carries out one plan after the other, each to its end. -/
def inTurn {α : Type} (limit : Instant) : List (Act α) → World → Option (List α) × World
  | [], w => (some [], w)
  | p :: ps, w => match play limit p w with
    | (none, w) => (none, w)
    | (some a, w) => match inTurn limit ps w with
      | (none, w) => (none, w)
      | (some as, w) => (some (a :: as), w)

/-- None of the plans has to wait, and this is what they come to, one after the other. -/
inductive Straight {α : Type} : List (Act α) → World → List α → World → Prop
  | nil (w : World) : Straight [] w [] w
  | cons {p : Act α} {ps : List (Act α)} {w w' w'' : World} {a : α} {as : List α} :
      advance p w = (.finished a, w') → Straight ps w' as w'' → Straight (p :: ps) w (a :: as) w''

theorem stage_run {α : Type} {ps : List (Act α)} {w w' : World} {as : List α} (h : Straight ps w as w')
    (limit : Instant) (fuel : Nat) (results : List α) (hfuel : ps.length < fuel) :
    (Stage.mk (ps.map .acting) [] [] results).run limit fuel w = (some (results ++ as), w') := by
  induction h generalizing fuel results with
  | nil w =>
    cases fuel with
    | zero => cases hfuel
    | succ fuel => simp [Stage.run, Stage.nextWake]
  | @cons p ps w w' w'' a as hadvance _ ih =>
    cases fuel with
    | zero => cases hfuel
    | succ fuel =>
      have hcall : ∀ s : Stage α, s.queue = [] → s.callNext w' = (s, w') := by
        intro s hs
        simp only [Stage.callNext, hs, ite_self]
      simp only [List.map_cons, Stage.run, hadvance, Stage.settle]
      rw [hcall _ rfl, ih fuel (results ++ [a]) (Nat.lt_of_succ_lt_succ hfuel), List.append_assoc]
      rfl

/-! ## Crowds -/

/-- All keys under way at the same time. -/
structure Crowd where
  world : World
  tasks : Key → Option (Act Attempt)

/-- Whose turn it is, and what the clocks show. -/
structure Turn where
  key : Key
  now : Instant
  wall : Timestamp

namespace Crowd

/-- The world as it is when the turn is taken. -/
def seen (c : Crowd) (t : Turn) : World := { c.world with now := t.now, wall := t.wall }

/-- The sync of the key makes its next call, unless it has to wait. -/
def step (c : Crowd) (t : Turn) : Crowd :=
  match c.tasks t.key with
  | some (.call call next) => match (c.seen t).perform call with
    | (.atOnce a, w) => ⟨w, Function.update c.tasks t.key (some (next a))⟩
    | _ => c
  | _ => c

def run (c : Crowd) (ts : List Turn) : Crowd := ts.foldl step c

/-- Every call is made in time. -/
def Timely (timeout : Nat) (start : World) : Crowd → List Turn → Prop
  | _, [] => True
  | c, t :: ts => (∀ call next, c.tasks t.key = some (.call call next) → InTime timeout start (c.seen t) call) ∧
      Timely timeout start (c.step t) ts

theorem run_append (c : Crowd) (ts ts' : List Turn) : c.run (ts ++ ts') = (c.run ts).run ts' :=
  List.foldl_append

theorem timely_append {timeout : Nat} {start : World} {c : Crowd} {ts ts' : List Turn} (h : Timely timeout start c ts)
    (h' : Timely timeout start (c.run ts) ts') : Timely timeout start c (ts ++ ts') := by
  induction ts generalizing c with
  | nil => exact h'
  | cons t ts ih => exact ⟨h.1, ih h.2 h'⟩

theorem step_eq {c : Crowd} {t : Turn} {call : World.Call} {next : call.Answer → Act Attempt} {a : call.Answer}
    {w : World} (hp : c.tasks t.key = some (.call call next)) (hperform : (c.seen t).perform call = (.atOnce a, w)) :
    c.step t = ⟨w, Function.update c.tasks t.key (some (next a))⟩ := by
  simp only [step, hp, hperform]

end Crowd

/-! ## A sync that is alone -/

section

variable {timeout : Nat} {limit : Instant} {start v v' : World} {L : Lane} {c : World.Call}
  {n : c.Answer → Act Attempt} {a : c.Answer}

theorem inTime_of_prompt (h : Prompt start (.call c n)) (hnow : v.now = start.now) (hsignals : v.signals = start.signals) :
    InTime timeout start v c := by
  have hsame : ∀ ctx, v.interruption ctx = start.interruption ctx := by
    intro ctx
    rw [World.interruption, World.interruption, hnow, hsignals]
  cases c with
  | clock => simp only [InTime, hnow]
  | interruption ctx => exact (hsame ctx).trans h.1
  | simulated ctx c => exact (hsame ctx).trans h.1
  | wallClock | store | session | visit | pause | cancel => trivial

theorem prompt_next (h : Prompt start (.call c n)) (hnow : v.now = start.now) (hsignals : v.signals = start.signals)
    (hperform : v.perform c = (.atOnce a, v')) : Prompt start (n a) := by
  cases c with
  | clock =>
    cases hperform
    rw [hnow]
    exact h
  | interruption ctx =>
    cases hperform
    rw [World.interruption, hnow, hsignals]
    have hnext := h.2
    rw [← h.1] at hnext
    exact hnext
  | simulated ctx c => exact h.2 a
  | wallClock | store | session | visit | pause | cancel => exact h a

/-- How many calls a plan makes that has the world to itself, up to one that it has to wait for. -/
def callsAlone {α : Type} : Act α → World → Nat
  | .done _, _ => 0
  | .call c n, w => match w.perform c with
    | (.atOnce a, w) => callsAlone (n a) w + 1
    | _ => 1

theorem done_of_callsAlone {α : Type} {p : Act α} {w : World} (h : callsAlone p w = 0) : ∃ a, p = .done a := by
  cases p with
  | done a => exact ⟨a, rfl⟩
  | call c n =>
    rw [callsAlone] at h
    split at h <;> cases h

/-- Where a plan has got to, with so many calls or at its end, that has the world to itself and was begun there. -/
structure Solo (limit : Instant) (start : World) (p : Act Attempt) (taken : Nat) (q : Act Attempt) (v : World) :
    Prop where
  now : v.now = start.now
  signals : v.signals = start.signals
  prompt : Prompt start q
  play : play limit q v = play limit p start
  left : callsAlone q v ≤ callsAlone p start - taken

theorem Solo.step {p : Act Attempt} {taken : Nat} (h : Solo limit start p taken (.call c n) v)
    (hperform : v.perform c = (.atOnce a, v')) (hs : Spares L v v') : Solo limit start p (taken + 1) (n a) v' where
  now := hs.now.trans h.now
  signals := hs.signals.trans h.signals
  prompt := prompt_next h.prompt h.now h.signals hperform
  play := by
    rw [← h.play, Rehearsal.play, hperform]
  left := by
    have hleft := h.left
    rw [callsAlone, hperform] at hleft
    exact Nat.le_sub_one_of_lt hleft

/-- At the end it makes no difference how often it is called on. -/
theorem Solo.stay {p : Act Attempt} {taken : Nat} {b : Attempt} (h : Solo limit start p taken (.done b) v)
    (taken' : Nat) : Solo limit start p taken' (.done b) v :=
  { h with left := Nat.zero_le _ }

end

/-! ## A crowd in its lanes -/

/-- The lane of a key: the machine there, and the instance that it stands for at the start. -/
def laneOf (start : World) (key : Key) : Lane :=
  ⟨key, ((start.shelf.stored .machine key).map Object.instanceName).getD ""⟩

/-- Each key has its lane to itself. -/
def Apart (start : World) (keys : List Key) : Prop :=
  ∀ a ∈ keys, ∀ b ∈ keys, (laneOf start a).name = (laneOf start b).name → a = b

/-- The syncs of a pass. -/
abbrev syncOf (config : WorkerConfig) (ctx : Context) (key : Key) : Act Attempt :=
  syncAct (keeper .simulated .machine) config ctx key

/-- All keys at their beginning. -/
def Crowd.of (config : WorkerConfig) (ctx : Context) (keys : List Key) (w : World) : Crowd :=
  ⟨w, fun key => if key ∈ keys then some (syncOf config ctx key) else none⟩

/-- Every sync has a twin that is alone and stands where it stands after so many turns, and nothing
has changed that is in no lane. -/
structure Inv (config : WorkerConfig) (ctx : Context) (limit : Instant) (start : World) (keys : List Key)
    (taken : Key → Nat) (c : Crowd) : Prop where
  task : ∀ key ∈ keys, ∃ p q v, c.tasks key = some p ∧ Twins config.timeout (laneOf start key) p q ∧
    Matched (laneOf start key) c.world v ∧ Solo limit start (syncOf config ctx key) (taken key) q v
  idle : ∀ key, key ∉ keys → c.tasks key = none
  machines : ∀ key, key ∉ keys → c.world.shelf.stored .machine key = start.shelf.stored .machine key
  clusters : ∀ key, c.world.shelf.stored .cluster key = start.shelf.stored .cluster key
  instances : ∀ name, (∀ key ∈ keys, name ≠ (laneOf start key).name) →
    c.world.simulated.instances.get? name = start.simulated.instances.get? name

section

variable {config : WorkerConfig} {ctx : Context} {limit : Instant} {start : World} {keys : List Key} {taken : Key → Nat}

/-- At the start the machine of a lane is there. -/
theorem matched_start (hq : Quiet start) (key : Key) : Matched (laneOf start key) start start := by
  refine ⟨hq, hq, rfl, rfl, fun m hm => ⟨hq.key_of_stored hm, ?_⟩, rfl⟩
  simp only [laneOf] at hm ⊢
  rw [hm]
  rfl

theorem inv_start (hq : Quiet start) (hctx : start.interruption ctx = none) (htimeout : 0 < config.timeout) :
    Inv config ctx limit start keys (fun _ => 0) (Crowd.of config ctx keys start) where
  task key hkey := by
    refine ⟨syncOf config ctx key, syncOf config ctx key, start, if_pos hkey, ?_, matched_start hq key, ?_⟩
    · exact twins_sync config ctx (laneOf start key)
    · exact ⟨rfl, rfl, prompt_sync hctx htimeout key, rfl, Nat.le_refl _⟩
  idle key hkey := if_neg hkey
  machines _ _ := rfl
  clusters _ := rfl
  instances _ _ := rfl

/-- No sync is late at its beginning. -/
theorem prompt_start (hctx : start.interruption ctx = none) (htimeout : 0 < config.timeout) {key : Key}
    {p : Act Attempt} (hp : (Crowd.of config ctx keys start).tasks key = some p) : Prompt start p := by
  simp only [Crowd.of] at hp
  split at hp
  · cases hp
    exact prompt_sync hctx htimeout key
  · cases hp

/-- What is listed is stored. -/
theorem stored_of_listed (hq : Quiet start) (hlist : start.shelf.answer ⟨.machine, .list, start.fresh⟩ = .ok keys)
    {key : Key} (hkey : key ∈ keys) : ∃ m, start.shelf.stored .machine key = some m := by
  obtain ⟨objects, hholds⟩ := hq.holds
  have hkeys : keys = (objects .machine).keys := by
    have hanswer := (hholds.perform ⟨.machine, .list, start.fresh⟩).1
    rw [hlist] at hanswer
    exact Except.ok.inj hanswer
  rw [hkeys, Catalog.mem_keys_iff] at hkey
  rw [hholds.stored]
  exact Option.isSome_iff_exists.mp hkey

/-- Machines that stand for different instances have their lanes apart. -/
theorem apart_of_names (hstored : ∀ key ∈ keys, ∃ m, start.shelf.stored .machine key = some m)
    (hnames : ∀ a ∈ keys, ∀ b ∈ keys, ∀ m m', start.shelf.stored .machine a = some m →
      start.shelf.stored .machine b = some m' → m.instanceName = m'.instanceName → a = b) : Apart start keys := by
  intro a ha b hb hname
  obtain ⟨m, hm⟩ := hstored a ha
  obtain ⟨m', hm'⟩ := hstored b hb
  simp only [laneOf, hm, hm', Option.map_some, Option.getD_some] at hname
  exact hnames a ha b hb m m' hm hm' hname

/-- A look at the clocks changes nothing in a lane. -/
theorem Matched.seen {L : Lane} {c : Crowd} {v : World} (h : Matched L c.world v) (t : Turn) : Matched L (c.seen t) v :=
  ⟨{ h.quiet with }, h.quiet', h.faults, h.stored, h.keeps, h.there⟩

/-- A turn is taken by no one, or it is a call in the lane of its key. -/
theorem turn_cases {c : Crowd} (h : Inv config ctx limit start keys taken c) (t : Turn)
    (ht : ∀ call next, c.tasks t.key = some (.call call next) → InTime config.timeout start (c.seen t) call) :
    (c.step t = c ∧ (t.key ∈ keys → ∃ b, c.tasks t.key = some (.done b))) ∨
    t.key ∈ keys ∧ ∃ call next a w q v, c.tasks t.key = some (.call call next) ∧
      (c.seen t).perform call = (.atOnce a, w) ∧ c.step t = ⟨w, Function.update c.tasks t.key (some (next a))⟩ ∧
      Spares (laneOf start t.key) (c.seen t) w ∧ Twins config.timeout (laneOf start t.key) (next a) q ∧
      Matched (laneOf start t.key) w v ∧ Solo limit start (syncOf config ctx t.key) (taken t.key + 1) q v := by
  by_cases hkey : t.key ∈ keys
  · obtain ⟨p, q, v, hp, htwins, hmatched, hsolo⟩ := h.task t.key hkey
    cases p with
    | done b =>
      refine .inl ⟨?_, fun _ => ⟨b, hp⟩⟩
      simp only [Crowd.step, hp]
    | call call next =>
      obtain ⟨call', next', rfl, hstep⟩ := step_of_twins htwins (hmatched.seen t) (ht call next hp)
      obtain ⟨a, a', w', v', hperform, hperform', htwins', hmatched', hspares, hspares'⟩ :=
        hstep (inTime_of_prompt hsolo.prompt hsolo.now hsolo.signals)
      exact .inr ⟨hkey, call, next, a, w', next' a', v', hp, hperform, Crowd.step_eq hp hperform, hspares, htwins',
        hmatched', hsolo.step hperform' hspares'⟩
  · refine .inl ⟨?_, fun hkey' => absurd hkey' hkey⟩
    simp only [Crowd.step, h.idle t.key hkey]

/-- One more turn for that key. -/
def turnFor (taken : Key → Nat) (key : Key) : Key → Nat := Function.update taken key (taken key + 1)

theorem inv_step (hapart : Apart start keys) {c : Crowd} (h : Inv config ctx limit start keys taken c) (t : Turn)
    (ht : ∀ call next, c.tasks t.key = some (.call call next) → InTime config.timeout start (c.seen t) call) :
    Inv config ctx limit start keys (turnFor taken t.key) (c.step t) := by
  rcases turn_cases h t ht with
    ⟨hstay, hdone⟩ | ⟨hkey, _, next, a, w, q, v, _, _, hstep, hspares, htwins, hmatched, hsolo⟩
  · rw [hstay]
    refine { h with task := fun key hkey => ?_ }
    by_cases he : key = t.key
    · subst he
      obtain ⟨b, hb⟩ := hdone hkey
      obtain ⟨p, q, v, hp, htwins, hmatched, hsolo⟩ := h.task t.key hkey
      cases hb.symm.trans hp
      cases htwins with
      | done b => exact ⟨.done b, .done b, v, hp, .done b, hmatched, hsolo.stay _⟩
    · rw [turnFor, Function.update_of_ne he]
      exact h.task key hkey
  · rw [hstep]
    constructor
    case task =>
      intro key hkey'
      by_cases he : key = t.key
      · subst he
        rw [turnFor, Function.update_self]
        exact ⟨next a, q, v, Function.update_self .., htwins, hmatched, hsolo⟩
      · rw [turnFor, Function.update_of_ne he]
        obtain ⟨p, q', v', hp', htwins', hmatched', hsolo'⟩ := h.task key hkey'
        refine ⟨p, q', v', ?_, htwins', (hmatched'.seen t).of_spares hspares he ?_, hsolo'⟩
        · exact (Function.update_of_ne he ..).trans hp'
        · exact fun hname => he (hapart key hkey' t.key hkey hname)
    case idle =>
      intro key hout
      exact (Function.update_of_ne (fun he : key = t.key => hout (he ▸ hkey)) ..).trans (h.idle key hout)
    case machines =>
      intro key hout
      exact (hspares.machines key fun he => hout (he ▸ hkey)).trans (h.machines key hout)
    case clusters => exact fun key => (hspares.clusters key).trans (h.clusters key)
    case instances =>
      intro name hout
      exact (hspares.instances name (hout t.key hkey)).trans (h.instances name hout)

/-- The turns that each key has had after a schedule. -/
def turnsAfter (taken : Key → Nat) (ts : List Turn) : Key → Nat := fun key => taken key + ts.countP (·.key = key)

theorem turnsAfter_cons (taken : Key → Nat) (t : Turn) (ts : List Turn) :
    turnsAfter (turnFor taken t.key) ts = turnsAfter taken (t :: ts) := by
  funext key
  by_cases he : t.key = key
  · subst he
    simp [turnsAfter, turnFor, Nat.add_assoc, Nat.add_comm 1]
  · simp [turnsAfter, turnFor, he, Ne.symm he]

theorem inv_run (hapart : Apart start keys) {c : Crowd} (h : Inv config ctx limit start keys taken c) {ts : List Turn}
    (hts : c.Timely config.timeout start ts) : Inv config ctx limit start keys (turnsAfter taken ts) (c.run ts) := by
  induction ts generalizing c taken with
  | nil => exact h
  | cons t ts ih =>
    have hrun := ih (inv_step hapart h t hts.1) hts.2
    rw [turnsAfter_cons] at hrun
    exact hrun

/-- Where the clock stands still, any schedule makes its calls in time. -/
theorem timely_of_still (hapart : Apart start keys) {c : Crowd} (h : Inv config ctx limit start keys taken c)
    (hsignals : c.world.signals = start.signals) (hprompt : ∀ key p, c.tasks key = some p → Prompt start p)
    {ts : List Turn} (hstill : ∀ t ∈ ts, t.now = start.now) : c.Timely config.timeout start ts := by
  induction ts generalizing c taken with
  | nil => trivial
  | cons t ts ih =>
    have hnow : (c.seen t).now = start.now := hstill t List.mem_cons_self
    have ht : ∀ call next, c.tasks t.key = some (.call call next) → InTime config.timeout start (c.seen t) call :=
      fun call next hp => inTime_of_prompt (hprompt t.key _ hp) hnow hsignals
    have hinv := inv_step hapart h t ht
    have hrest : ∀ t' ∈ ts, t'.now = start.now := fun t' ht' => hstill t' (List.mem_cons_of_mem t ht')
    refine ⟨ht, ?_⟩
    rcases turn_cases h t ht with ⟨hstay, _⟩ | ⟨_, call, next, a, w, _, _, hp, hperform, hstep, hspares, _⟩
    · rw [hstay]
      exact ih h hsignals hprompt hrest
    · rw [hstep] at hinv ⊢
      refine ih hinv (hspares.signals.trans hsignals) (fun key p hp' => ?_) hrest
      by_cases he : key = t.key
      · subst he
        cases (Function.update_self ..).symm.trans hp'
        exact prompt_next (hprompt t.key _ hp) hnow hsignals hperform
      · exact hprompt key p ((Function.update_of_ne he ..).symm.trans hp')

/-! ## The end -/

/-- The sync of each key has ended like that. -/
def Crowd.Done (c : Crowd) (keys : List Key) (ends : List Attempt) : Prop :=
  keys.map c.tasks = ends.map fun a => some (.done a)

theorem Crowd.done_of_forall {c : Crowd} (h : ∀ key ∈ keys, ∃ a, c.tasks key = some (.done a)) :
    ∃ ends, c.Done keys ends := by
  induction keys with
  | nil => exact ⟨[], rfl⟩
  | cons key keys ih =>
    obtain ⟨a, ha⟩ := h key List.mem_cons_self
    obtain ⟨ends, hends⟩ := ih fun key' hkey' => h key' (List.mem_cons_of_mem key hkey')
    refine ⟨a :: ends, ?_⟩
    show c.tasks key :: keys.map c.tasks = some (.done a) :: ends.map _
    rw [ha, show keys.map c.tasks = _ from hends]

theorem Crowd.Done.task {c : Crowd} {ends : List Attempt} (h : c.Done keys ends) {key : Key} (hkey : key ∈ keys) :
    ∃ a, c.tasks key = some (.done a) := by
  have hmem : c.tasks key ∈ keys.map c.tasks := List.mem_map_of_mem hkey
  rw [show keys.map c.tasks = _ from h] at hmem
  obtain ⟨a, _, ha⟩ := List.mem_map.mp hmem
  exact ⟨a, ha.symm⟩

/-- The same is left, up to times. -/
structure Agree (w w' : World) : Prop where
  machines : ∀ key, (w.shelf.stored .machine key).map Object.timeless = (w'.shelf.stored .machine key).map Object.timeless
  clusters : ∀ key, w.shelf.stored .cluster key = w'.shelf.stored .cluster key
  instances : ∀ name, w.simulated.instances.get? name = w'.simulated.instances.get? name

/-- A sync that has ended has ended as it would have if it had been alone. -/
theorem play_of_done {c : Crowd} (h : Inv config ctx limit start keys taken c) {key : Key} (hkey : key ∈ keys) {a : Attempt}
    (ha : c.tasks key = some (.done a)) :
    ∃ v, play limit (syncOf config ctx key) start = (some a, v) ∧ Matched (laneOf start key) c.world v := by
  obtain ⟨p, q, v, hp, htwins, hmatched, hsolo⟩ := h.task key hkey
  rw [ha] at hp
  cases hp
  cases htwins with
  | done a => exact ⟨v, hsolo.play.symm, hmatched⟩

/-- With the turns that each would take alone, all have ended. -/
theorem done_of_turns {c : Crowd} (h : Inv config ctx limit start keys taken c)
    (hturns : ∀ key ∈ keys, callsAlone (syncOf config ctx key) start ≤ taken key) : ∃ ends, c.Done keys ends := by
  refine Crowd.done_of_forall fun key hkey => ?_
  obtain ⟨p, q, v, hp, htwins, hmatched, hsolo⟩ := h.task key hkey
  have hleft : callsAlone q v ≤ 0 := Nat.sub_eq_zero_of_le (hturns key hkey) ▸ hsolo.left
  obtain ⟨b, rfl⟩ := done_of_callsAlone (Nat.le_zero.mp hleft)
  cases htwins with
  | done b => exact ⟨b, hp⟩

theorem agree_of_done {taken' : Key → Nat} {c c' : Crowd} (h : Inv config ctx limit start keys taken c)
    (h' : Inv config ctx limit start keys taken' c') {ends ends' : List Attempt} (hends : c.Done keys ends)
    (hends' : c'.Done keys ends') : ends = ends' ∧ Agree c.world c'.world := by
  have hboth : ∀ key ∈ keys, c.tasks key = c'.tasks key ∧
      ∃ v, Matched (laneOf start key) c.world v ∧ Matched (laneOf start key) c'.world v := by
    intro key hkey
    obtain ⟨a, ha⟩ := hends.task hkey
    obtain ⟨a', ha'⟩ := hends'.task hkey
    obtain ⟨v, hplay, hmatched⟩ := play_of_done h hkey ha
    obtain ⟨v', hplay', hmatched'⟩ := play_of_done h' hkey ha'
    rw [hplay] at hplay'
    cases hplay'
    exact ⟨ha.trans ha'.symm, v, hmatched, hmatched'⟩
  refine ⟨?_, ?_, fun key => (h.clusters key).trans (h'.clusters key).symm, ?_⟩
  · have hsame : keys.map c.tasks = keys.map c'.tasks := List.map_congr_left fun key hkey => (hboth key hkey).1
    have hmaps : ends.map (fun a => some (Plan.done a)) = ends'.map fun a => some (.done a) :=
      hends.symm.trans (hsame.trans hends')
    refine List.map_injective_iff.mpr ?_ hmaps
    intro a a' haa'
    cases haa'
    rfl
  · intro key
    by_cases hkey : key ∈ keys
    · obtain ⟨v, hv, hv'⟩ := (hboth key hkey).2
      exact hv.stored.trans hv'.stored.symm
    · rw [h.machines key hkey, h'.machines key hkey]
  · intro name
    by_cases hname : ∃ key ∈ keys, name = (laneOf start key).name
    · obtain ⟨key, hkey, rfl⟩ := hname
      obtain ⟨v, hv, hv'⟩ := (hboth key hkey).2
      exact hv.there.trans hv'.there.symm
    · have hout : ∀ key ∈ keys, name ≠ (laneOf start key).name := fun key hkey he => hname ⟨key, hkey, he⟩
      exact (h.instances name hout).trans (h'.instances name hout).symm

/-! ## One after the other is a schedule -/

/-- A sync that gets all its turns one after the other, with the clock standing still, comes to its end. -/
theorem finish {L : Lane} {c : Crowd} {p : Act Attempt} (hp : c.tasks L.key = some p)
    (htwins : Twins config.timeout L p p) (hm : Matched L c.world c.world) (hprompt : Prompt start p)
    (hnow : c.world.now = start.now) (hsignals : c.world.signals = start.signals) (limit : Instant) :
    ∃ a w' ts, play limit p c.world = (some a, w') ∧ advance p c.world = (.finished a, w') ∧
      c.run ts = ⟨w', Function.update c.tasks L.key (some (.done a))⟩ ∧ c.Timely config.timeout start ts ∧
      Spares L c.world w' := by
  induction p generalizing c with
  | done a =>
    refine ⟨a, c.world, [], rfl, rfl, ?_, trivial, .refl hm.quiet⟩
    rw [← hp, Function.update_eq_self]
    rfl
  | call call n ih =>
    have htime : InTime config.timeout start c.world call := inTime_of_prompt hprompt hnow hsignals
    obtain ⟨call', n', he, hstep⟩ := step_of_twins htwins hm htime
    cases he
    obtain ⟨a, a', w, w', hperform, hperform', htwins', hm', hspares, _⟩ := hstep htime
    rw [hperform] at hperform'
    cases hperform'
    let t : Turn := ⟨L.key, c.world.now, c.world.wall⟩
    have hseen : (c.seen t).perform call = (.atOnce a, w) := hperform
    have hnext := Crowd.step_eq (t := t) hp hseen
    obtain ⟨b, w'', ts, hplay, hadvance, hrun, hts, hspares'⟩ :=
      ih a (c := ⟨w, Function.update c.tasks L.key (some (n a))⟩) (Function.update_self ..) htwins' hm'
        (prompt_next hprompt hnow hsignals hperform) (hspares.now.trans hnow) (hspares.signals.trans hsignals)
    refine ⟨b, w'', t :: ts, ?_, ?_, ?_, ⟨?_, ?_⟩, ?_⟩
    · rw [play, hperform]
      exact hplay
    · rw [advance, hperform]
      exact hadvance
    · show (c.step t).run ts = _
      rw [hnext, hrun]
      simp only [Function.update_idem]
    · intro call' next' hp'
      cases hp.symm.trans hp'
      exact htime
    · rw [hnext]
      exact hts
    · exact hspares.trans hspares'

/-- So do all of them, key by key. -/
theorem inTurn_runs (hctx : start.interruption ctx = none) (htimeout : 0 < config.timeout) (limit : Instant)
    {ks : List Key} (hnodup : ks.Nodup) (hapart : Apart start ks) {c : Crowd} (hnow : c.world.now = start.now)
    (hsignals : c.world.signals = start.signals) (htasks : ∀ key ∈ ks, c.tasks key = some (syncOf config ctx key))
    (hm : ∀ key ∈ ks, Matched (laneOf start key) c.world c.world) :
    ∃ as w' ts, inTurn limit (ks.map (syncOf config ctx)) c.world = (some as, w') ∧
      Straight (ks.map (syncOf config ctx)) c.world as w' ∧ c.Timely config.timeout start ts ∧
      (c.run ts).world = w' ∧ (c.run ts).Done ks as ∧ ∀ key, key ∉ ks → (c.run ts).tasks key = c.tasks key := by
  induction ks generalizing c with
  | nil => exact ⟨[], c.world, [], rfl, .nil _, trivial, rfl, rfl, fun _ _ => rfl⟩
  | cons key ks ih =>
    obtain ⟨hout, hnodup'⟩ := List.nodup_cons.mp hnodup
    have hhere : key ∈ key :: ks := List.mem_cons_self
    have hthere : ∀ key' ∈ ks, key' ∈ key :: ks := fun key' h => List.mem_cons_of_mem key h
    have hne : ∀ key' ∈ ks, key' ≠ key := fun key' h he => hout (he ▸ h)
    obtain ⟨a, w, ts, hplay, hadvance, hrun, hts, hspares⟩ :=
      finish (L := laneOf start key) (htasks key hhere) (twins_sync config ctx (laneOf start key)) (hm key hhere)
        (prompt_sync hctx htimeout key) hnow hsignals limit
    change c.run ts = ⟨w, Function.update c.tasks key (some (.done a))⟩ at hrun
    have hm' : ∀ key' ∈ ks, Matched (laneOf start key') w w := by
      intro key' hkey'
      have hname : (laneOf start key').name ≠ (laneOf start key).name := fun he =>
        hne key' hkey' (hapart key' (hthere key' hkey') key hhere he)
      have h := (hm key' (hthere key' hkey')).of_spares hspares (hne key' hkey') hname
      exact ⟨hspares.quiet, hspares.quiet, rfl, rfl, h.keeps, rfl⟩
    obtain ⟨as, w', ts', hturns, hstraight, hts', hworld, hdone, hothers⟩ :=
      ih hnodup' (fun a ha b hb => hapart a (hthere a ha) b (hthere b hb))
        (c := ⟨w, Function.update c.tasks key (some (.done a))⟩) (hspares.now.trans hnow)
        (hspares.signals.trans hsignals)
        (fun key' hkey' => (Function.update_of_ne (hne key' hkey') ..).trans (htasks key' (hthere key' hkey'))) hm'
    refine ⟨a :: as, w', ts ++ ts', ?_, .cons hadvance hstraight, Crowd.timely_append hts (hrun ▸ hts'), ?_, ?_, ?_⟩
    · rw [List.map_cons, inTurn, hplay]
      dsimp only
      rw [hturns]
    · rw [Crowd.run_append, hrun]
      exact hworld
    · rw [Crowd.run_append, hrun]
      have hfirst := hothers key hout
      show List.map _ (key :: ks) = List.map _ (a :: as)
      rw [List.map_cons, List.map_cons, hfirst, show ks.map _ = _ from hdone]
      exact congrArg (· :: _) (Function.update_self ..)
    · intro key' hkey'
      rw [Crowd.run_append, hrun]
      rw [List.mem_cons, not_or] at hkey'
      exact (hothers key' hkey'.2).trans (Function.update_of_ne hkey'.1 ..)

/-- A pass lists the keys and syncs them one after the other, as none of them has to wait. -/
theorem pass_of_straight {as : List Attempt} {w' : World}
    (hlist : start.shelf.answer ⟨.machine, .list, start.fresh⟩ = .ok keys) (hoverdue : start.overdue = [])
    (h : Straight (keys.map (syncOf config ctx)) start as w') (limit : Instant) :
    pass .machine (keeper .simulated .machine) config ctx limit start = (.done (Summary.ofAttempts as), w') := by
  have hquietly : start.storeQuietly (.list (k := .machine)) = (.ok keys, start) := by
    have hshelf : (start.shelf.perform start.fresh .machine .list).2 = start.shelf := by
      cases start.shelf <;> rfl
    simp only [World.storeQuietly, hshelf]
    rw [show (start.shelf.perform start.fresh .machine .list).1 = .ok keys from hlist]
  have hcaught : start.catchUp = start := by
    simp only [World.catchUp, hoverdue, List.foldl_nil]
    rw [← hoverdue]
  have hfuel : (keys.map (syncOf config ctx)).length < turns keys config := by
    have hmul : 64 * (keys.length + 1) * 1 ≤ 64 * (keys.length + 1) * (config.maxRequeues + 1) :=
      Nat.mul_le_mul_left _ (Nat.le_add_left ..)
    simp only [turns, List.length_map]
    omega
  have hrun := stage_run h limit (turns keys config) [] hfuel
  rw [List.nil_append] at hrun
  simp only [pass, hquietly, hcaught, Stage.of]
  rw [hrun]

end

/-! ## A pass -/

/-- The keys that are listed, each of them once (`Shelf.listed_nodup`) and no two of whose machines
stand for one instance, are synced at the same time, under a context that is not done and with some
time for each attempt. A schedule that makes its calls in time comes to an end if each key gets the
turns that it would take alone. It then leaves the machines, up to times, the clusters and the
instances that are left by the keys in turn, with the same ends and, in whatever order they are
counted, the same summary. One after the other is such a schedule, and what a pass does; and where
the clock stands still they all are. -/
theorem any_order {w : World} {keys : List Key} {config : WorkerConfig} {ctx : Context} (hq : Quiet w)
    (hlist : w.shelf.answer ⟨.machine, .list, w.fresh⟩ = .ok keys) (hnodup : keys.Nodup)
    (hnames : ∀ a ∈ keys, ∀ b ∈ keys, ∀ m m', w.shelf.stored .machine a = some m → w.shelf.stored .machine b = some m' →
      m.instanceName = m'.instanceName → a = b)
    (hctx : w.interruption ctx = none) (htimeout : 0 < config.timeout) (limit : Instant) :
    let crowd := Crowd.of config ctx keys w
    ∃ attempts w', inTurn limit (keys.map (syncOf config ctx)) w = (some attempts, w') ∧
      (w.overdue = [] → pass .machine (keeper .simulated .machine) config ctx limit w =
        (.done (Summary.ofAttempts attempts), w')) ∧
      (∃ ts, crowd.Timely config.timeout w ts ∧ (crowd.run ts).world = w' ∧ (crowd.run ts).Done keys attempts) ∧
      (∀ ts, (∀ t ∈ ts, t.now = w.now) → crowd.Timely config.timeout w ts) ∧
      ∀ ts, crowd.Timely config.timeout w ts →
        ((∀ key ∈ keys, callsAlone (syncOf config ctx key) w ≤ ts.countP (·.key = key)) →
          ∃ ends, (crowd.run ts).Done keys ends) ∧
        ∀ ends, (crowd.run ts).Done keys ends → Agree (crowd.run ts).world w' ∧ ends = attempts ∧
          ∀ order, order.Perm ends → Summary.ofAttempts order = Summary.ofAttempts attempts := by
  intro crowd
  have hapart : Apart w keys := apart_of_names (fun _ hkey => stored_of_listed hq hlist hkey) hnames
  have hstart : Inv config ctx limit w keys (fun _ => 0) crowd := inv_start hq hctx htimeout
  have hprompt : ∀ key p, crowd.tasks key = some p → Prompt w p := fun _ _ hp => prompt_start hctx htimeout hp
  obtain ⟨attempts, w', ts, hturns, hstraight, hts, hworld, hdone, _⟩ :=
    inTurn_runs (c := crowd) hctx htimeout limit hnodup hapart rfl rfl (fun key hkey => if_pos hkey)
      (fun key _ => matched_start hq key)
  refine ⟨attempts, w', hturns, fun hoverdue => pass_of_straight hlist hoverdue hstraight limit,
    ⟨ts, hts, hworld, hdone⟩, fun ts' hstill => timely_of_still hapart hstart rfl hprompt hstill, fun ts' hts' => ?_⟩
  have hinv := inv_run hapart hstart hts'
  constructor
  case left =>
    intro hturns
    exact done_of_turns hinv fun key hkey => Nat.le_trans (hturns key hkey) (Nat.le_add_left ..)
  case right =>
    intro ends hends
    obtain ⟨hsame, hagree⟩ := agree_of_done hinv (inv_run hapart hstart hts) hends hdone
    rw [hworld] at hagree
    refine ⟨hagree, hsame, fun order horder => ?_⟩
    rw [← hsame]
    exact Summary.ofAttempts_perm horder

/-- A machine that is new, and one that is to be deleted and has its instance. -/
def twoMachines : World :=
  let w := ((World.start someTime .emptyMemory).store .machine (.create (newMachine ⟨"default", "w1"⟩ []))).2
  let w := (w.store .machine (.create (newMachine ⟨"default", "w2"⟩ [machineMarker]))).2
  let w := (w.store .machine (.delete ⟨"default", "w2"⟩)).2
  { w with simulated := w.simulated.insertForeign "w2" }

/-- The two take turns. -/
def byTurns : List Turn :=
  (List.replicate 12 [⟨⟨"default", "w1"⟩, 0, someTime⟩, ⟨⟨"default", "w2"⟩, 0, someTime⟩]).flatten

theorem any_order_twoMachines :
    let keys : List Key := [⟨"default", "w1"⟩, ⟨"default", "w2"⟩]
    let crowd := Crowd.of .standard .background keys twoMachines
    let attempts : List Attempt := [.finished (.ok .never), .finished (.ok .never)]
    Quiet twoMachines ∧ twoMachines.shelf.answer ⟨.machine, .list, twoMachines.fresh⟩ = .ok keys ∧
      crowd.Timely WorkerConfig.standard.timeout twoMachines byTurns ∧ (crowd.run byTurns).Done keys attempts ∧
      ∃ w', pass .machine (keeper .simulated .machine) .standard .background 0 twoMachines = (.done ⟨2, 0, 0⟩, w') ∧
        Agree (crowd.run byTurns).world w' := by
  intro keys crowd attempts
  have hq : Quiet twoMachines := by
    have hempty : Quiet (World.start someTime .emptyMemory) := ⟨rfl, rfl, _, Shelf.holds_emptyMemory⟩
    exact { ((hempty.store _).store _).store (.delete ⟨"default", "w2"⟩) with }
  have hlist : twoMachines.shelf.answer ⟨.machine, .list, twoMachines.fresh⟩ = .ok keys := rfl
  have hnames : ∀ a ∈ keys, ∀ b ∈ keys, ∀ m m', twoMachines.shelf.stored .machine a = some m →
      twoMachines.shelf.stored .machine b = some m' → m.instanceName = m'.instanceName → a = b := by
    have hapart : ∀ a ∈ keys, ∀ b ∈ keys, (twoMachines.shelf.stored .machine a).map Object.instanceName =
        (twoMachines.shelf.stored .machine b).map Object.instanceName → a = b := by decide
    intro a ha b hb m m' hm hm' hname
    refine hapart a ha b hb ?_
    rw [hm, hm', Option.map_some, Option.map_some, hname]
  have hctx : twoMachines.interruption .background = none := rfl
  have htimeout : 0 < WorkerConfig.standard.timeout := by decide
  obtain ⟨ends, w', hinTurn, hpass, _, hstill, hall⟩ := any_order hq hlist (by decide) hnames hctx htimeout 0
  have hends : (inTurn 0 (keys.map (syncOf .standard .background)) twoMachines).1 = some attempts := rfl
  rw [hinTurn] at hends
  cases hends
  have htimely : crowd.Timely WorkerConfig.standard.timeout twoMachines byTurns := hstill byTurns (by decide)
  have hturns : ∀ key ∈ keys, callsAlone (syncOf .standard .background key) twoMachines ≤
      byTurns.countP (·.key = key) := by
    decide +kernel
  obtain ⟨hcomes, hsame⟩ := hall byTurns htimely
  obtain ⟨ends, hdone⟩ := hcomes hturns
  obtain ⟨hagree, rfl, _⟩ := hsame ends hdone
  exact ⟨hq, hlist, htimely, hdone, w', hpass rfl, hagree⟩

end Rehearsal

end MachineKeeper
