/-
  MachineKeeper.Proofs.Rehearsal.Watched — keys that tell of their reconciles.

  Following a key says what came of it, but not when it was reconciled. So let the key look at
  the clock right before each reconcile and right after it, and tell both in the end (`watch`).
  A look at the clock is answered at once and changes nothing. So a troupe of keys that tell can
  do whatever the troupe of the same keys can that do not (`Shadows`), and its tellings are of
  that very run.

  What a key will tell in the end is partly settled on the way: its reconciles so far, with the
  one it is in (`Tells`). They are in order because reconciles follow one another in the plan of
  the key, and the clock does not go back. That holds whatever a reconcile does and however the
  others come between, and of keys that never come to an end as well.

  Proved:
  - `exists_watched`: whatever keys come to, they can come to it and tell.
  - `Tells.unique`: what a key has told of is settled by where it stands.
  - `places_of_reaches`: the reconciles that a key tells of are its own, in this run, one after
    the other.
-/

import MachineKeeper.Proofs.Rehearsal.Schedules
import MachineKeeper.Proofs.Store.Change
import MachineKeeper.Rehearsal.Keeper

namespace MachineKeeper.Rehearsal

open Troupe (Reaches)

variable {α β γ : Type} {key : Key} {start now : Instant} {w w' : World}

/-- One reconcile, from when it is called to when it is back. -/
structure Stint where
  key : Key
  began : Instant
  /-- If it is over. -/
  ended : Option Instant

/-- It is back by then. -/
def Stint.OverBy (s : Stint) (t : Instant) : Prop := ∃ ended, s.ended = some ended ∧ ended ≤ t

theorem Stint.OverBy.trans {s : Stint} {t t' : Instant} (h : s.OverBy t) (hle : t ≤ t') : s.OverBy t' := by
  obtain ⟨ended, hended, hby⟩ := h
  exact ⟨ended, hended, Nat.le_trans hby hle⟩

structure Told where
  /-- What came of following the key. -/
  attempt : Attempt
  /-- The reconciles that it took. -/
  stints : List Stint

/-- Follows a key, with a look at the clock on both sides of every reconcile. -/
def watch (reconciler : Reconciler) : SyncPlan Attempt → List Stint → Act Told
  | .done attempt, stints => .done ⟨attempt, stints⟩
  | .call .clock next, stints => .call .clock fun now => watch reconciler (next now) stints
  | .call (.interruption ctx) next, stints => .call (.interruption ctx) fun why => watch reconciler (next why) stints
  | .call (.reconcile ctx key) next, stints =>
    .call .clock fun began => (reconciler ctx key).bind fun attempt =>
      .call .clock fun ended => watch reconciler (next attempt) (stints ++ [⟨key, began, some ended⟩])

def watchAct (reconciler : Reconciler) (config : WorkerConfig) (ctx : Context) (key : Key) : Act Told :=
  watch reconciler (Sync.plan config ctx key) []

/-! ## Looks at the clock -/

/-- The same plan, with looks at the clock in between and with more in its result. -/
inductive Shadows (f : β → α) : Act α → Act β → Prop where
  | done (b : β) : Shadows f (.done (f b)) (.done b)
  | call {c : World.Call} {next : c.Answer → Act α} {next' : c.Answer → Act β}
      (h : ∀ a, Shadows f (next a) (next' a)) : Shadows f (.call c next) (.call c next')
  | look {p : Act α} {next' : Instant → Act β} (h : ∀ t, Shadows f p (next' t)) : Shadows f p (.call .clock next')

variable {f : β → α}

theorem Shadows.bind {g : γ → Act α} {g' : γ → Act β} (p : Act γ) (h : ∀ c, Shadows f (g c) (g' c)) :
    Shadows f (p.bind g) (p.bind g') := by
  induction p with
  | done c => exact h c
  | call c next ih => exact .call ih

theorem shadows_watchAct (reconciler : Reconciler) (config : WorkerConfig) (ctx : Context) (key : Key) :
    Shadows Told.attempt (syncAct reconciler config ctx key) (watchAct reconciler config ctx key) := by
  unfold syncAct watchAct
  generalize Sync.plan config ctx key = p
  generalize ([] : List Stint) = stints
  induction p generalizing stints with
  | done attempt => exact .done (f := Told.attempt) ⟨attempt, stints⟩
  | call c next ih =>
    cases c with
    | clock => exact .call fun now => ih now stints
    | interruption ctx => exact .call fun why => ih why stints
    | reconcile ctx key => exact .look fun _ => .bind _ fun attempt => .look fun _ => ih attempt _

namespace Task

inductive Shadows (f : β → α) : Task α → Task β → Prop where
  | acting {p : Act α} {p' : Act β} (h : Rehearsal.Shadows f p p') : Shadows f (.acting p) (.acting p')
  | asleep {ctx : Context} {ready : Option Instant} {next : Except Interruption Unit → Act α}
      {next' : Except Interruption Unit → Act β} (h : ∀ r, Rehearsal.Shadows f (next r) (next' r)) :
      Shadows f (.asleep ⟨ctx, ready, next⟩) (.asleep ⟨ctx, ready, next'⟩)
  | queued {p : Act α} {p' : Act β} (h : Rehearsal.Shadows f p p') : Shadows f (.queued p) (.queued p')
  | finished (b : β) : Shadows f (.finished (f b)) (.finished b)

end Task

/-- Where a plan makes a move, one with looks at the clock makes its looks and then the same move. -/
theorem Shadows.move {p : Act α} {p' : Act β} (h : Shadows f p p') {y : Task α} (hmove : (Task.acting p).Move w y w') :
    ∃ y', y.Shadows f y' ∧ ∀ before after, Reaches ⟨before ++ .acting p' :: after, w⟩ ⟨before ++ y' :: after, w'⟩ := by
  induction h with
  | done b =>
    cases hmove
    exact ⟨.finished b, .finished b, fun _ _ => (Troupe.Step.move .ends).reaches⟩
  | call h =>
    cases hmove with
    | goes hperform => exact ⟨_, .acting (h _), fun _ _ => (Troupe.Step.move (.goes hperform)).reaches⟩
    | waits hperform => exact ⟨_, .asleep fun r => h _, fun _ _ => (Troupe.Step.move (.waits hperform)).reaches⟩
    | queues hperform => exact ⟨_, .queued (h _), fun _ _ => (Troupe.Step.move (.queues hperform)).reaches⟩
  | look _ ih =>
    obtain ⟨y', hy, hreaches⟩ := ih w.now hmove
    exact ⟨y', hy, fun before after => (Troupe.Step.move (.goes rfl)).reaches.trans (hreaches before after)⟩

theorem Task.Shadows.move {x y : Task α} {x' : Task β} (h : x.Shadows f x') (hmove : x.Move w y w') :
    ∃ y', y.Shadows f y' ∧ ∀ before after, Reaches ⟨before ++ x' :: after, w⟩ ⟨before ++ y' :: after, w'⟩ := by
  cases h with
  | acting h => exact h.move hmove
  | @asleep ctx ready _ next' h =>
    let s' : Sleeper β := ⟨ctx, ready, next'⟩
    cases hmove with
    | interrupted hwhy => exact ⟨_, .acting (h _), fun _ _ => (Troupe.Step.move (.interrupted (s := s') hwhy)).reaches⟩
    | rises hnone hready =>
      exact ⟨_, .acting (h _), fun _ _ => (Troupe.Step.move (.rises (s := s') hnone hready)).reaches⟩
  | queued h =>
    cases hmove with
    | enters hopening => exact ⟨_, .acting h, fun _ _ => (Troupe.Step.move (.enters hopening)).reaches⟩
  | finished b => cases hmove

theorem forall₂_split {σ τ : Type} {R : σ → τ → Prop} {before after : List σ} {x : σ} {ys : List τ}
    (h : List.Forall₂ R (before ++ x :: after) ys) : ∃ before' x' after', ys = before' ++ x' :: after' ∧ R x x' ∧
      ∀ y y', R y y' → List.Forall₂ R (before ++ y :: after) (before' ++ y' :: after') := by
  induction before generalizing ys with
  | nil =>
    cases h with
    | cons hhead htail => exact ⟨[], _, _, rfl, hhead, fun _ _ hy => .cons hy htail⟩
  | cons z before ih =>
    cases h with
    | cons hhead htail =>
      obtain ⟨before', x', after', rfl, hx, hput⟩ := ih htail
      exact ⟨_ :: before', x', after', rfl, hx, fun y y' hy => .cons hhead (hput y y' hy)⟩

theorem reaches_of_shadows {c d : Troupe α} (h : Reaches c d) {tasks : List (Task β)}
    (hstart : List.Forall₂ (Task.Shadows f) c.tasks tasks) :
    ∃ tasks', Reaches ⟨tasks, c.world⟩ ⟨tasks', d.world⟩ ∧ List.Forall₂ (Task.Shadows f) d.tasks tasks' := by
  induction h with
  | refl => exact ⟨tasks, .refl, hstart⟩
  | tail _ hstep ih =>
    obtain ⟨tasks', hreaches, hshadows⟩ := ih
    cases hstep with
    | move hmove =>
      obtain ⟨before', x', after', rfl, hx, hput⟩ := forall₂_split hshadows
      obtain ⟨y', hy, hmoves⟩ := hx.move hmove
      exact ⟨before' ++ y' :: after', hreaches.trans (hmoves before' after'), hput _ _ hy⟩
    | time ht => exact ⟨tasks', hreaches.tail (.time ht), hshadows⟩

theorem eq_map_of_shadows {ends : List α} {tasks : List (Task β)}
    (h : List.Forall₂ (Task.Shadows f) (ends.map .finished) tasks) :
    ∃ bs : List β, tasks = bs.map .finished ∧ bs.map f = ends := by
  induction ends generalizing tasks with
  | nil =>
    cases h
    exact ⟨[], rfl, rfl⟩
  | cons a ends ih =>
    cases h with
    | cons hhead htail =>
      obtain ⟨bs, rfl, rfl⟩ := ih htail
      cases hhead with
      | finished b => exact ⟨b :: bs, rfl, rfl⟩

/-- Whatever keys come to, they can come to it and tell. -/
theorem exists_watched {reconciler : Reconciler} {config : WorkerConfig} {ctx : Context} {keys : List Key}
    {tasks : List (Task Attempt)}
    (h : Together (syncAct reconciler config ctx) keys w tasks w') :
    ∃ tasks', Together (watchAct reconciler config ctx) keys w tasks' w' ∧
      List.Forall₂ (Task.Shadows Told.attempt) tasks tasks' := by
  refine reaches_of_shadows h ?_
  rw [List.forall₂_map_left_iff, List.forall₂_map_right_iff]
  exact List.forall₂_same.mpr fun key _ => .acting (shadows_watchAct reconciler config ctx key)

/-! ## Tellings in order -/

/-- Reconciles of that key, one after the other, all of them between `start` and now. -/
structure InTurn (key : Key) (start now : Instant) (stints : List Stint) : Prop where
  own : ∀ s ∈ stints, s.key = key ∧ start ≤ s.began ∧ s.began ≤ now ∧ ∀ ended ∈ s.ended, s.began ≤ ended ∧ ended ≤ now
  apart : stints.Pairwise fun a b => a.OverBy b.began

namespace InTurn

variable {stints : List Stint}

theorem nil : InTurn key start now [] := ⟨fun _ hs => (nomatch hs), .nil⟩

theorem overBy (h : InTurn key start now stints) {s : Stint} (hs : s ∈ stints) (hover : s.ended ≠ none) : s.OverBy now := by
  obtain ⟨ended, hended⟩ := Option.ne_none_iff_exists'.mp hover
  obtain ⟨_, _, _, hspan⟩ := h.own s hs
  exact ⟨ended, hended, (hspan ended hended).2⟩

theorem later (h : InTurn key start now stints) {t : Instant} (hle : now ≤ t) : InTurn key start t stints where
  own s hs := by
    obtain ⟨hkey, hfrom, hby, hspan⟩ := h.own s hs
    exact ⟨hkey, hfrom, Nat.le_trans hby hle, fun e he => ⟨(hspan e he).1, Nat.le_trans (hspan e he).2 hle⟩⟩
  apart := h.apart

theorem begins (h : InTurn key start now stints) (hstart : start ≤ now) (hover : ∀ s ∈ stints, s.ended ≠ none) :
    InTurn key start now (stints ++ [⟨key, now, none⟩]) where
  own := by
    refine List.forall_mem_append.mpr ⟨h.own, List.forall_mem_singleton.mpr ?_⟩
    exact ⟨rfl, hstart, Nat.le_refl _, fun _ he => (nomatch he)⟩
  apart := by
    refine List.pairwise_append.mpr ⟨h.apart, List.pairwise_singleton _ _, fun a ha b hb => ?_⟩
    cases List.mem_singleton.mp hb
    exact h.overBy ha (hover a ha)

theorem ends {began : Instant} (h : InTurn key start now (stints ++ [⟨key, began, none⟩])) :
    InTurn key start now (stints ++ [⟨key, began, some now⟩]) where
  own := by
    obtain ⟨hbefore, hlast⟩ := List.forall_mem_append.mp h.own
    obtain ⟨_, hfrom, hby, _⟩ := hlast _ (List.mem_singleton_self _)
    refine List.forall_mem_append.mpr ⟨hbefore, List.forall_mem_singleton.mpr ⟨rfl, hfrom, hby, fun e he => ?_⟩⟩
    cases he
    exact ⟨hby, Nat.le_refl _⟩
  apart := by
    obtain ⟨hbefore, _, hlast⟩ := List.pairwise_append.mp h.apart
    refine List.pairwise_append.mpr ⟨hbefore, List.pairwise_singleton _ _, fun a ha b hb => ?_⟩
    cases List.mem_singleton.mp hb
    exact hlast a ha ⟨key, began, none⟩ (List.mem_singleton_self _)

end InTurn

/-- Whatever answers it gets, the key will tell of these, the last of them maybe under way, and
of those it makes from now on. -/
inductive Tells (key : Key) : List Stint → Act Told → Prop where
  | done {told : Told} (hover : ∀ s ∈ told.stints, s.ended ≠ none) : Tells key told.stints (.done told)
  | begins {stints : List Stint} {next : Instant → Act Told} (hover : ∀ s ∈ stints, s.ended ≠ none)
      (h : ∀ t, Tells key (stints ++ [⟨key, t, none⟩]) (next t)) : Tells key stints (.call .clock next)
  | ends {stints before : List Stint} {began : Instant} {next : Instant → Act Told}
      (hlast : stints = before ++ [⟨key, began, none⟩])
      (h : ∀ t, Tells key (before ++ [⟨key, began, some t⟩]) (next t)) : Tells key stints (.call .clock next)
  | call {stints : List Stint} {c : World.Call} {next : c.Answer → Act Told} (h : ∀ a, Tells key stints (next a)) :
      Tells key stints (.call c next)

theorem Tells.bind {stints : List Stint} {g : γ → Act Told} (p : Act γ) (h : ∀ c, Tells key stints (g c)) :
    Tells key stints (p.bind g) := by
  induction p with
  | done c => exact h c
  | call c next ih => exact .call ih

theorem nonempty_answer (c : World.Call) : Nonempty c.Answer := by
  obtain ⟨response, _⟩ := (World.start someTime Shelf.emptyMemory).perform c
  cases response with
  | atOnce a | queued a => exact ⟨a⟩
  | waiting _ _ answer => exact ⟨answer (.ok ())⟩

/-- What a plan has told of so far can be read off in one way only. -/
theorem Tells.unique {stints stints' : List Stint} {p : Act Told} (h : Tells key stints p) (h' : Tells key stints' p) :
    stints = stints' := by
  induction h generalizing stints' with
  | done =>
    cases h'
    rfl
  | begins _ _ ih =>
    cases h' with
    | begins _ h' => exact List.append_cancel_right (ih 0 (h' 0))
    | ends _ h' =>
      have hlast := ih 0 (h' 0)
      simp at hlast
    | call h' =>
      -- two answers of the clock cannot both be told already
      have hlast := (ih 0 (h' 0)).trans (ih 1 (h' 1)).symm
      simp at hlast
  | ends hstints _ ih =>
    cases h' with
    | begins _ h' =>
      have hlast := ih 0 (h' 0)
      simp at hlast
    | ends hstints' h' =>
      have hlast := ih 0 (h' 0)
      obtain ⟨rfl, hbegan⟩ := List.append_inj' hlast rfl
      cases hbegan
      rw [hstints, hstints']
    | call h' =>
      have hlast := (ih 0 (h' 0)).trans (ih 1 (h' 1)).symm
      simp at hlast
  | @call _ c _ _ ih =>
    cases h' with
    | begins _ h' | ends _ h' =>
      have hlast := (ih 0 (h' 0)).symm.trans (ih 1 (h' 1))
      simp at hlast
    | call h' =>
      obtain ⟨a⟩ := nonempty_answer c
      exact ih a (h' a)

/-- A plan that reconciles no other key. -/
inductive About (key : Key) : SyncPlan α → Prop where
  | done (a : α) : About key (.done a)
  | clock {next : Instant → SyncPlan α} (h : ∀ now, About key (next now)) : About key (.call .clock next)
  | interruption {ctx : Context} {next : Option Interruption → SyncPlan α} (h : ∀ why, About key (next why)) :
      About key (.call (.interruption ctx) next)
  | reconcile {ctx : Context} {next : Attempt → SyncPlan α} (h : ∀ attempt, About key (next attempt)) :
      About key (.call (.reconcile ctx key) next)

theorem about_attempt {ctx : Context} {timeout : Nat} {again : SyncPlan Attempt} (h : About key again) :
    About key (Sync.attempt ctx timeout key again) := by
  refine .clock fun now => ?_
  rw [Plan.done_bind]
  cases ctx.withTimeout? now timeout with
  | none => exact .done _
  | some child =>
    refine .reconcile fun attempt => ?_
    rcases attempt with (fault | requeue) | _
    · exact .done _
    · cases requeue with
      | immediate => exact h
      | _ => exact .done _
    · exact .done _

theorem about_attempts (ctx : Context) (timeout : Nat) (key : Key) (left : Nat) :
    About key (Sync.attempts ctx timeout key left) := by
  induction left with
  | zero => exact about_attempt (.done _)
  | succ left ih =>
    refine about_attempt (.interruption fun why => ?_)
    cases why with
    | some why => exact .done _
    | none => exact ih

theorem tells_watch (reconciler : Reconciler) {p : SyncPlan Attempt} (hp : About key p) {stints : List Stint}
    (hover : ∀ s ∈ stints, s.ended ≠ none) : Tells key stints (watch reconciler p stints) := by
  induction hp generalizing stints with
  | done attempt => exact @Tells.done key ⟨attempt, stints⟩ hover
  | clock _ ih => exact .call fun now => ih now hover
  | interruption _ ih => exact .call fun why => ih why hover
  | reconcile _ ih =>
    refine .begins hover fun began => .bind _ fun attempt => .ends rfl fun ended => ih attempt ?_
    exact List.forall_mem_append.mpr ⟨hover, List.forall_mem_singleton.mpr (Option.some_ne_none ended)⟩

/-- However the plan goes on from here. -/
def Task.All (P : Act α → Prop) : Task α → Prop
  | .acting p | .queued p => P p
  | .asleep s => ∀ r, P (s.next r)
  | .finished a => P (.done a)

/-- Where a key stands, and the reconciles it has told of so far. -/
structure Place where
  key : Key
  task : Task Told
  stints : List Stint

structure Place.Sound (start now : Instant) (p : Place) : Prop where
  tells : p.task.All (Tells p.key p.stints)
  inTurn : InTurn p.key start now p.stints

/-- The key stands there with what it has told of, all of it since `start`. -/
def Standing (start : Instant) (key : Key) (w : World) (x : Task Told) : Prop :=
  start ≤ w.now ∧ ∃ stints, Place.Sound start w.now ⟨key, x, stints⟩

theorem standing_move {x y : Task Told} (hmove : x.Move w y w') (h : Standing start key w x) : Standing start key w' y := by
  obtain ⟨hstart, stints, htells, hturn⟩ := h
  dsimp only at htells hturn
  rw [Standing, hmove.now]
  refine ⟨hstart, ?_⟩
  cases hmove with
  | ends => exact ⟨stints, htells, hturn⟩
  | goes hperform =>
    cases htells with
    | begins hover h =>
      cases hperform
      exact ⟨_, h w.now, hturn.begins hstart hover⟩
    | ends hlast h =>
      cases hperform
      subst hlast
      exact ⟨_, h w.now, hturn.ends⟩
    | call h => exact ⟨stints, h _, hturn⟩
  | waits hperform =>
    cases htells with
    | begins | ends => cases hperform
    | call h => exact ⟨stints, fun r => h _, hturn⟩
  | queues hperform =>
    cases htells with
    | begins | ends => cases hperform
    | call h => exact ⟨stints, h _, hturn⟩
  | interrupted | rises => exact ⟨stints, htells _, hturn⟩
  | enters => exact ⟨stints, htells, hturn⟩

theorem exists_places {keys : List Key} {tasks : List (Task Told)}
    (h : List.Forall₂ (fun key x => Standing start key w x) keys tasks) :
    ∃ places : List Place, places.map Place.key = keys ∧ places.map Place.task = tasks ∧
      ∀ p ∈ places, p.Sound start w.now := by
  induction h with
  | nil => exact ⟨[], rfl, rfl, fun _ hp => (nomatch hp)⟩
  | cons hx _ ih =>
    obtain ⟨_, stints, hsound⟩ := hx
    obtain ⟨places, rfl, rfl, hplaces⟩ := ih
    exact ⟨⟨_, _, stints⟩ :: places, rfl, rfl, List.forall_mem_cons.mpr ⟨hsound, hplaces⟩⟩

/-- However far a troupe of keys that tell has got, each has told of its own reconciles, all of
this run and one after the other. -/
theorem places_of_reaches {reconciler : Reconciler} {config : WorkerConfig} {ctx : Context} {keys : List Key}
    {tasks : List (Task Told)}
    (h : Together (watchAct reconciler config ctx) keys w tasks w') :
    ∃ places : List Place, places.map Place.key = keys ∧ places.map Place.task = tasks ∧
      ∀ p ∈ places, p.Sound w.now w'.now := by
  have hstart : List.Forall₂ (fun key x => Standing w.now key w x) keys
      (keys.map fun key => .acting (watchAct reconciler config ctx key)) := by
    rw [List.forall₂_map_right_iff]
    refine List.forall₂_same.mpr fun key _ => ⟨Nat.le_refl _, [], ?_, .nil⟩
    exact tells_watch reconciler (about_attempts ctx config.timeout key config.maxRequeues) fun _ hs => (nomatch hs)
  have hlater : ∀ {key x} {v v' : World}, v.now ≤ v'.now → Standing w.now key v x → Standing w.now key v' x := by
    intro key x v v' hle h
    obtain ⟨hstart, stints, htells, hturn⟩ := h
    exact ⟨Nat.le_trans hstart hle, stints, htells, hturn.later hle⟩
  exact exists_places (h.each (T := Standing w.now) standing_move hlater hstart)

end MachineKeeper.Rehearsal
