/-
  MachineKeeper.Proofs.Rehearsal.Schedules — plans carried out together, in any order.

  A stage has one way to go on: first come, first served, each until it has to wait, and time
  passes only when nobody can act. Here a troupe of plans goes on as it may (`Step`): any plan
  that can act makes its next call, a waiting one rises once it is told why, a queued one once
  the right to open the session is free, and time may pass whenever it likes. So calls of
  different plans come in any order, and plans end in any order.

  The plans keep their places in the list, so what is known of each at the start can be followed
  place by place (`Reaches.each`).

  Proved:
  - `Reaches.now_le`: the clock does not go back.
  - `Reaches.each`: what every move of a plan keeps holds of each plan as long as they go on.
  - `comes_of_run`: what comes of a stage can come of the troupe of its plans.
-/

import Mathlib.Data.List.Perm.Basic
import Mathlib.Logic.Relation
import MachineKeeper.Proofs.Clock.Await
import MachineKeeper.Proofs.Rehearsal.Frame
import MachineKeeper.Rehearsal.Together

namespace MachineKeeper.Rehearsal

variable {α : Type}

/-- Where a plan under way stands. -/
inductive Task (α : Type) where
  | acting (p : Act α)
  | asleep (s : Sleeper α)
  | queued (p : Act α)
  | finished (a : α)

namespace Task

/-- What one plan may do next. -/
inductive Move : Task α → World → Task α → World → Prop where
  | ends {a : α} {w : World} : Move (.acting (.done a)) w (.finished a) w
  | goes {c : World.Call} {next : c.Answer → Act α} {a : c.Answer} {w w' : World}
      (h : w.perform c = (.atOnce a, w')) : Move (.acting (.call c next)) w (.acting (next a)) w'
  | waits {c : World.Call} {next : c.Answer → Act α} {ctx : Context} {ready : Option Instant}
      {answer : Except Interruption Unit → c.Answer} {w w' : World}
      (h : w.perform c = (.waiting ctx ready answer, w')) :
      Move (.acting (.call c next)) w (.asleep ⟨ctx, ready, fun r => next (answer r)⟩) w'
  | queues {c : World.Call} {next : c.Answer → Act α} {a : c.Answer} {w w' : World}
      (h : w.perform c = (.queued a, w')) : Move (.acting (.call c next)) w (.queued (next a)) w'
  | interrupted {s : Sleeper α} {why : Interruption} {w : World} (h : w.interruption s.ctx = some why) :
      Move (.asleep s) w (.acting (s.next (.error why))) w
  | rises {s : Sleeper α} {w : World} (h : w.interruption s.ctx = none) (hready : s.ready.any (· ≤ w.now)) :
      Move (.asleep s) w (.acting (s.next (.ok ()))) w
  | enters {p : Act α} {w : World} (h : w.opening = false) : Move (.queued p) w (.acting p) { w with opening := true }

theorem Move.now {x y : Task α} {w w' : World} (h : x.Move w y w') : w'.now = w.now := by
  cases h with
  | @goes c _ _ _ _ h | @waits c _ _ _ _ _ _ h | @queues c _ _ _ _ h =>
    have hnow := perform_now c w
    rw [h] at hnow
    exact hnow
  | _ => rfl

end Task

/-- Plans under way together. -/
structure Troupe (α : Type) where
  tasks : List (Task α)
  world : World

namespace Troupe

inductive Step : Troupe α → Troupe α → Prop where
  | move {before after : List (Task α)} {x y : Task α} {w w' : World} (h : x.Move w y w') :
      Step ⟨before ++ x :: after, w⟩ ⟨before ++ y :: after, w'⟩
  | time {tasks : List (Task α)} {w : World} {t : Instant} (h : w.now ≤ t) : Step ⟨tasks, w⟩ ⟨tasks, { w with now := t }⟩

abbrev Reaches : Troupe α → Troupe α → Prop := Relation.ReflTransGen Step

theorem Step.now_le {c c' : Troupe α} (h : Step c c') : c.world.now ≤ c'.world.now := by
  cases h with
  | move h => exact Nat.le_of_eq h.now.symm
  | time h => exact h

theorem Reaches.now_le {c c' : Troupe α} (h : Reaches c c') : c.world.now ≤ c'.world.now := by
  induction h with
  | refl => exact Nat.le_refl _
  | tail _ hstep ih => exact Nat.le_trans ih hstep.now_le

/-! ## Place by place -/

theorem forall₂_replace {ι τ : Type} {R S : ι → τ → Prop} {is : List ι} {before after : List τ} {x y : τ}
    (h : List.Forall₂ R is (before ++ x :: after)) (hrest : ∀ i z, R i z → S i z) (hx : ∀ i, R i x → S i y) :
    List.Forall₂ S is (before ++ y :: after) := by
  induction before generalizing is with
  | nil =>
    cases h with
    | cons hhead htail => exact .cons (hx _ hhead) (htail.imp hrest)
  | cons z before ih =>
    cases h with
    | cons hhead htail => exact .cons (hrest _ z hhead) (ih htail)

/-- What holds of a plan at one time and later, and is kept by its moves, is kept by all moves. -/
theorem Reaches.each {ι : Type} {T : ι → World → Task α → Prop} {is : List ι} {c c' : Troupe α} (h : Reaches c c')
    (hmove : ∀ {i x y w w'}, x.Move w y w' → T i w x → T i w' y)
    (hlater : ∀ {i x w w'}, w.now ≤ w'.now → T i w x → T i w' x)
    (hstart : List.Forall₂ (fun i x => T i c.world x) is c.tasks) :
    List.Forall₂ (fun i x => T i c'.world x) is c'.tasks := by
  induction h with
  | refl => exact hstart
  | tail _ hstep ih =>
    cases hstep with
    | move h => exact forall₂_replace ih (fun _ _ => hlater (Nat.le_of_eq h.now.symm)) fun _ => hmove h
    | time h => exact ih.imp fun _ _ => hlater h

/-! ## A stage is one of the ways -/

theorem Step.reaches {c c' : Troupe α} (h : Step c c') : Reaches c c' := .single h

end Troupe

open Troupe (Reaches)

/-- The plans of some, begun together, have got so far. -/
abbrev Together {ι : Type} (plan : ι → Act α) (is : List ι) (w : World) (tasks : List (Task α)) (w' : World) : Prop :=
  Reaches ⟨is.map fun i => .acting (plan i), w⟩ ⟨tasks, w'⟩

def Progress.task : Progress α → Task α
  | .finished a => .finished a
  | .asleep s => .asleep s
  | .queued p => .queued p

def Actor.task : Actor α → Task α
  | .acting p => .acting p
  | .woken s => .asleep s

def Stage.tasks (s : Stage α) : List (Task α) :=
  s.actors.map Actor.task ++ s.sleepers.map .asleep ++ s.queue.map .queued ++ s.results.map .finished

variable {before after : List (Task α)}

/-- A plan goes as far as it gets by itself. -/
theorem reaches_advance (p : Act α) (w : World) :
    Reaches ⟨before ++ .acting p :: after, w⟩ ⟨before ++ (advance p w).1.task :: after, (advance p w).2⟩ := by
  induction p generalizing w with
  | done a => exact (Troupe.Step.move .ends).reaches
  | call c next ih =>
    rw [advance]
    cases hperform : w.perform c with
    | mk response w' =>
      cases response with
      | atOnce a => exact (Troupe.Step.move (.goes hperform)).reaches.trans (ih a w')
      | waiting ctx ready answer => exact (Troupe.Step.move (.waits hperform)).reaches
      | queued a => exact (Troupe.Step.move (.queues hperform)).reaches

theorem reaches_turn (s : Sleeper α) (w : World) :
    Reaches ⟨before ++ .asleep s :: after, w⟩ ⟨before ++ (s.turn w).1.task :: after, (s.turn w).2⟩ := by
  unfold Sleeper.turn
  split
  · next why hwhy => exact (Troupe.Step.move (.interrupted hwhy)).reaches.trans (reaches_advance _ w)
  · next hnone =>
    split
    · next hready => exact (Troupe.Step.move (.rises hnone hready)).reaches.trans (reaches_advance _ w)
    · exact .refl

/-- The troupe that a stage stands for, up to the order of the places. -/
def Stands (start : Troupe α) (s : Stage α) (w : World) : Prop :=
  ∃ tasks, Reaches start ⟨tasks, w⟩ ∧ tasks.Perm s.tasks

variable {start : Troupe α} {s : Stage α} {w w' : World}

/-- One of the plans goes on, the others keep their places. -/
theorem Stands.step {x y : Task α} {rest : List (Task α)} {s' : Stage α} (h : Stands start s w)
    (hx : s.tasks.Perm (x :: rest)) (hy : s'.tasks.Perm (y :: rest))
    (hstep : ∀ before after, Reaches ⟨before ++ x :: after, w⟩ ⟨before ++ y :: after, w'⟩) : Stands start s' w' := by
  obtain ⟨tasks, hreaches, hs⟩ := h
  have hperm := hs.trans hx
  obtain ⟨before, after, rfl⟩ := List.append_of_mem (hperm.symm.subset List.mem_cons_self)
  have hrest : (before ++ after).Perm rest := (List.perm_middle.symm.trans hperm).cons_inv
  exact ⟨before ++ y :: after, hreaches.trans (hstep before after),
    List.perm_middle.trans ((hrest.cons y).trans hy.symm)⟩

theorem tasks_settle (s : Stage α) (progress : Progress α) : (s.settle progress).tasks.Perm (progress.task :: s.tasks) := by
  cases progress with
  | finished a =>
    simp only [Stage.settle, Stage.tasks, List.map_append, ← List.append_assoc]
    exact List.perm_append_singleton _ _
  | asleep sleeper =>
    have hmiddle := @List.perm_middle _ (Task.asleep sleeper) (s.actors.map Actor.task ++ s.sleepers.map .asleep)
      (s.queue.map .queued ++ s.results.map .finished)
    simpa [Stage.settle, Stage.tasks, Progress.task] using hmiddle
  | queued p =>
    have hmiddle := @List.perm_middle _ (Task.queued p)
      (s.actors.map Actor.task ++ s.sleepers.map .asleep ++ s.queue.map .queued) (s.results.map .finished)
    simpa [Stage.settle, Stage.tasks, Progress.task] using hmiddle

theorem Stands.act {actor : Actor α} {rest : List (Actor α)} (h : Stands start s w) (hactors : s.actors = actor :: rest)
    {progress : Progress α}
    (hstep : ∀ before after, Reaches ⟨before ++ actor.task :: after, w⟩ ⟨before ++ progress.task :: after, w'⟩) :
    Stands start ({ s with actors := rest }.settle progress) w' := by
  refine h.step ?_ (tasks_settle _ progress) hstep
  rw [Stage.tasks, hactors]
  exact .rfl

theorem Stands.callNext (h : Stands start s w) : Stands start (s.callNext w).1 (s.callNext w).2 := by
  unfold Stage.callNext
  split
  · exact h
  · next hopening =>
    split
    · exact h
    · next p rest hqueue =>
      let others := s.actors.map Actor.task ++ s.sleepers.map .asleep ++ (rest.map .queued ++ s.results.map .finished)
      have hmiddle := @List.perm_middle _ (Task.queued p) (s.actors.map Actor.task ++ s.sleepers.map .asleep)
        (rest.map .queued ++ s.results.map .finished)
      have hqueued : s.tasks.Perm (.queued p :: others) := by simpa [Stage.tasks, hqueue, others] using hmiddle
      have hcalled : ({ s with actors := s.actors ++ [.acting p], queue := rest } : Stage α).tasks.Perm
          (.acting p :: others) := by
        simp [Stage.tasks, Actor.task, others]
      exact h.step hqueued hcalled fun before after =>
        (Troupe.Step.move (.enters (Bool.eq_false_iff.mpr hopening))).reaches

theorem tasks_wake (s : Stage α) (w : World) : (s.wake w).tasks.Perm s.tasks := by
  let due (sleeper : Sleeper α) : Bool := (sleeper.wakes w).any (· ≤ w.now)
  have hsplit : ((s.sleepers.filter due).map Task.asleep ++ (s.sleepers.filter (!due ·)).map Task.asleep).Perm
      (s.sleepers.map Task.asleep) := by
    rw [← List.map_append]
    exact (List.filter_append_perm due s.sleepers).map _
  have hwhole := (hsplit.append_left (s.actors.map Actor.task)).append_right (s.queue.map .queued ++ s.results.map .finished)
  simpa [Stage.wake, Stage.tasks, Function.comp_def, Actor.task] using hwhole

theorem Stands.wake (h : Stands start s w) {t : Instant} (ht : w.now ≤ t) :
    Stands start (s.wake { w with now := t }) { w with now := t } := by
  obtain ⟨tasks, hreaches, hs⟩ := h
  exact ⟨tasks, hreaches.tail (.time ht), hs.trans (tasks_wake s _).symm⟩

/-- Nobody on a stage wakes in the past. -/
theorem le_nextWake {t : Instant} (h : s.nextWake w = some t) : w.now ≤ t := by
  have hfold : ∀ (sleepers : List (Sleeper α)) (first : Option Instant), (∀ u, first = some u → w.now ≤ u) →
      sleepers.foldl (fun t sleeper => earliest t (sleeper.wakes w)) first = some t → w.now ≤ t := by
    intro sleepers
    induction sleepers with
    | nil => exact fun first hfirst h => hfirst t h
    | cons sleeper sleepers ih =>
      refine fun first hfirst => ih _ fun u hu => ?_
      rcases eq_of_earliest hu with hu | hu
      · exact hfirst u hu
      · exact Context.le_wakes hu
  exact hfold s.sleepers none (fun u hu => by cases hu) h

/-- What a stage may come to: the results of its plans, or where they stood when it was abandoned. -/
def Comes (start : Troupe α) (limit : Instant) : Option (List α) → World → Prop
  | some results, w => ∃ ends : List α, ends.Perm results ∧ Reaches start ⟨ends.map .finished, w⟩
  | none, w => ∃ tasks u, Reaches start ⟨tasks, u⟩ ∧ w = u.abandon limit

theorem Stands.abandon (h : Stands start s w) (limit : Instant) : Comes start limit none (w.abandon limit) := by
  obtain ⟨tasks, hreaches, _⟩ := h
  exact ⟨tasks, w, hreaches, rfl⟩

theorem Stands.run (h : Stands start s w) (limit : Instant) (fuel : Nat) :
    Comes start limit (s.run limit fuel w).1 (s.run limit fuel w).2 := by
  induction fuel generalizing s w with
  | zero => exact h.abandon limit
  | succ fuel ih =>
    rw [Stage.run]
    split
    · next actor rest hactors =>
      refine ih (Stands.callNext ?_)
      refine h.act hactors fun before after => ?_
      cases actor with
      | acting p => exact reaches_advance p w
      | woken sleeper => exact reaches_turn sleeper w
    · next hactors =>
      split
      · next t hwake =>
        split
        · exact ih (h.wake (le_nextWake hwake))
        · exact h.abandon limit
      · split
        · next hempty =>
          obtain ⟨tasks, hreaches, hs⟩ := h
          simp only [Bool.and_eq_true, List.isEmpty_iff] at hempty
          rw [Stage.tasks, hactors, hempty.1, hempty.2] at hs
          have hends := (congrFun (congrFun (List.eq_map_comp_perm Task.finished) tasks) s.results).mpr hs
          obtain ⟨ends, rfl, hperm⟩ := hends
          exact ⟨ends, hperm, hreaches⟩
        · exact h.abandon limit

/-- What comes of plans on a stage can come of them as a troupe. -/
theorem comes_of_run {limit : Instant} {fuel : Nat} {plans : List (Act α)} {results : Option (List α)}
    (h : (Stage.of plans).run limit fuel w = (results, w')) : Comes ⟨plans.map .acting, w⟩ limit results w' := by
  have hstands : Stands ⟨plans.map .acting, w⟩ (Stage.of plans) w := by
    refine ⟨plans.map .acting, .refl, ?_⟩
    simp [Stage.tasks, Stage.of, Actor.task, Function.comp_def]
  have hcomes := hstands.run limit fuel
  rwa [h] at hcomes

end MachineKeeper.Rehearsal
