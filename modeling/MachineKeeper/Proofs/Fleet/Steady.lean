/-
  MachineKeeper.Proofs.Fleet.Steady — a machine that needs no further reconcile gets none that does anything.

  One key is reconciled over and over, and nobody else writes or touches the backend. Creates and
  deletes may fail or not and have their effect or not; only a look that does not fail is truthful.

  A reconcile that has returned `never` leaves its machine at rest (`AtRest`): there is none, or it
  only waits for the markers of others, or it is recorded as it is and its instance is there. That
  is shown along the reconcile, by what it knows of the site at each of its calls (`Underway`).
  From there on every reconcile connects, looks and is done (`Idle`), also where it was broken off
  and started again, as long as the backend answers.

  Proved:
  - `underway_run`: where a reconcile has got to, by whatever answers.
  - `steady_run`: at rest, the site stays what it is.
  - `writes_only_news`: with `Wrote`, the account of what reconciles write and when they stop.
-/

import MachineKeeper.Proofs.Fleet.Basic
import MachineKeeper.Proofs.Reconcile.News

namespace MachineKeeper

open Reconcile

/-- Nothing is left to do about the machine of the key, whatever there is of it. -/
def AtRest (key : Key) (s : Site) : Prop := ∀ m, s.store.get? key = some m →
  (m.metadata.deletionRequested ∧ ¬m.hasMarker machineMarker) ∨
    (¬m.metadata.deletionRequested ∧ m.hasMarker machineMarker ∧ UpToDate m ∧ (s.instances m.instanceName).isSome)

namespace Fleet

/-- The moves of a key that is left alone, with the backend answering. -/
def Calm (key : Key) : Move → Prop
  | .start k | .stop k => k = key
  | .proceed k chance => k = key ∧ chance.report = .ok ()
  | .client _ _ | .appear _ | .vanish _ => False

theorem run_cons (f : Fleet) (m : Move) (ms : List Move) : f.run (m :: ms) = (f.step m).run ms := rfl

end Fleet

/-- A call that neither writes nor changes an instance. -/
def ReconcileCall.Harmless : ReconcileCall .machine → Prop
  | .store (.get _) | .store .list | .wallClock => True
  | .store _ => False
  | .backend c => ¬c.mutates

variable {key : Key} {s : Site}

/-! ## A reconcile that has the site to itself -/

/-- What a reconcile of the key knows of the site, wherever it stands. -/
inductive Underway (key : Key) (s : Site) : MachinePlan → Prop
  | begun : Underway key s (machine key)
  | marking (o : Machine) : Underway key s (.call (.store (.update o)) (concluded .immediate))
  | reading {m : Machine} {h : Heard} {p : MachinePlan} : s.store.get? key = some m → m.hasMarker machineMarker →
      Course m h p → (∀ there, h.Shows there → (s.instances m.instanceName).isSome = there) → Underway key s p
  | ended {r : Except ReconcileFault Requeue} : (r = .ok .never → AtRest key s) → Underway key s (.done r)

theorem upToDate_adopted (m : Machine) (now : Timestamp) :
    UpToDate (m.withStatus (adoptedStatus m m.instanceName now)) := by
  have hname : (m.withStatus (adoptedStatus m m.instanceName now)).instanceName = m.instanceName :=
    Object.instanceName_record m _
  refine ⟨hname.symm, fun now' => ?_⟩
  rw [hname, Condition.set_unchanged_iff]
  exact Condition.find?_set (readyCondition m m.instanceName now) m.status.conditions

/-- The marker comes off, and either that was the last one or others are waited for. -/
theorem atRest_released {m : Machine} (hm : s.store.get? key = some m) (hd : m.metadata.deletionRequested)
    (fresh : Fresh) : AtRest key (s.call fresh (.update (released m))) := by
  have hk : m.key = key := s.filed key m hm
  intro m' hm'
  have hkey : (released m).key = key := hk
  have hv : m.Current (released m) := rfl
  simp only [Site.call, Memory.perform, Memory.update_eq, hkey, hm, if_pos hv] at hm'
  split at hm'
  · rw [Catalog.get?_erase, if_pos rfl] at hm'
    cases hm'
  · rw [Catalog.get?_insert, if_pos rfl] at hm'
    cases hm'
    refine .inl ⟨hd, ?_⟩
    rw [Object.hasMarker_updated, Object.hasMarker_iff]
    simp [released, foreignMarkers]

/-- The instance is recorded as it was seen. -/
theorem atRest_adopted {m : Machine} (hm : s.store.get? key = some m) (hd : ¬m.metadata.deletionRequested)
    (hmark : m.hasMarker machineMarker) (hthere : (s.instances m.instanceName).isSome) (fresh : Fresh)
    (now : Timestamp) : AtRest key (s.call fresh (.updateStatus (adopted m now))) := by
  have hk : m.key = key := s.filed key m hm
  intro m' hm'
  have hkey : (adopted m now).key = key := hk
  have hv : m.Current (adopted m now) := rfl
  simp only [Site.call, Memory.perform, Memory.updateStatus_eq, hkey, hm, if_pos hv] at hm'
  rw [Catalog.get?_insert, if_pos rfl] at hm'
  cases hm'
  have hname : (m.withStatus (adoptedStatus m m.instanceName now)).instanceName = m.instanceName :=
    Object.instanceName_record m _
  refine .inr ⟨hd, hmark, upToDate_adopted m now, ?_⟩
  show (s.instances (m.withStatus (adoptedStatus m m.instanceName now)).instanceName).isSome
  rw [hname]
  exact hthere

theorem atRest_of_concluded {c : StoreCall .machine} {fresh : Fresh} (h : AtRest key (s.call fresh c))
    (x : Except StoreFault Machine) : Underway key (s.call fresh c) (concluded .never x) := by
  cases x with
  | error fault => exact .ended fun hr => by cases hr
  | ok _ => exact .ended fun _ => h

/-- What is known once a machine has been read. -/
theorem underway_afterRead {m : Machine} (hm : s.store.get? key = some m) : Underway key s (afterRead m) := by
  rcases afterRead_cases m with ⟨hd, hmark, hdone⟩ | ⟨hd, hmark, hwrite⟩ | ⟨hmark, hc⟩
  · rw [hdone]
    refine .ended fun _ m' hm' => ?_
    rw [hm] at hm'
    cases hm'
    exact .inl ⟨hd, hmark⟩
  · rw [hwrite]
    exact .marking _
  · exact .reading hm hmark hc fun _ hshows => hshows.elim

/-- A call of a reconcile that follows its course. -/
theorem underway_course {m : Machine} {h : Heard} {c : ReconcileCall .machine} {next : c.Answer → MachinePlan}
    (hm : s.store.get? key = some m) (hmark : m.hasMarker machineMarker) (hc : Course m h (.call c next))
    (hs : ∀ there, h.Shows there → (s.instances m.instanceName).isSome = there) (chance : Chance) :
    Underway key (s.answer key chance c).2 (next (s.answer key chance c).1) := by
  cases hc with
  | @connect next hfault hok =>
    show Underway key s (next chance.report)
    cases chance.report with
    | error fault => exact .reading hm hmark (hfault fault) fun _ hshows => hshows.elim
    | ok _ => exact .reading hm hmark hok fun _ hshows => hshows.elim
  | @look next hfault hok | @confirm next hfault hok =>
    show Underway key s (next (chance.report.map fun _ => (s.instances m.instanceName).isSome))
    cases chance.report with
    | error fault => exact .reading hm hmark (hfault fault) fun _ hshows => hshows.elim
    | ok _ => exact .reading hm hmark (hok _) fun _ hshows => hshows
  | @create next _ hfault hok | @delete next _ hfault hok =>
    rw [← Site.store_backend key chance s] at hm
    show Underway key _ (next chance.report)
    cases chance.report with
    | error fault => exact .reading hm hmark (hfault fault) fun _ hshows => hshows.elim
    | ok _ => exact .reading hm hmark hok fun _ hshows => hshows.elim
  | clock hnext => exact .reading hm hmark (hnext _) hs
  | tell fault now _ _ => exact .ended fun hr => by cases hr
  | record now hshows hd _ => exact atRest_of_concluded (atRest_adopted hm hd hmark (hs true hshows) chance.fresh now) _
  | release hshows hd => exact atRest_of_concluded (atRest_released hm hd chance.fresh) _

theorem underway_answer {c : ReconcileCall .machine} {next : c.Answer → MachinePlan}
    (h : Underway key s (.call c next)) (chance : Chance) :
    Underway key (s.answer key chance c).2 (next (s.answer key chance c).1) := by
  generalize hp : Plan.call c next = p at h
  cases h with
  | begun =>
    rw [machine_eq_onRead] at hp
    cases hp
    show Underway key s (onRead (.ok (s.store.get? key)))
    cases hm : s.store.get? key with
    | none =>
      refine .ended fun _ m' hm' => ?_
      rw [hm] at hm'
      cases hm'
    | some m => exact underway_afterRead hm
  | marking o =>
    cases hp
    cases (s.answer key chance (.store (.update o))).1 with
    | error fault => exact .ended fun hr => by cases hr
    | ok _ => exact .ended fun hr => by cases hr
  | reading hm hmark hc hs =>
    subst hp
    exact underway_course hm hmark hc hs chance
  | ended _ => cases hp

theorem underway_run {f : Fleet} {p : MachinePlan} (hf : f.flights key = some p) (h : Underway key f.site p)
    (chances : List Chance) :
    ∃ q, (f.run (chances.map (.proceed key))).flights key = some q ∧
      Underway key (f.run (chances.map (.proceed key))).site q := by
  induction chances generalizing f p with
  | nil => exact ⟨p, hf, h⟩
  | cons chance chances ih =>
    rw [List.map_cons]
    cases p with
    | done r =>
      have hstay : f.step (.proceed key chance) = f := by simp only [Fleet.step, hf]
      rw [Fleet.run_cons, hstay]
      exact ih hf h
    | call c next =>
      have hstep : f.step (.proceed key chance) =
          ⟨(f.site.answer key chance c).2,
            Function.update f.flights key (some (next (f.site.answer key chance c).1))⟩ := by
        simp only [Fleet.step, hf]
      rw [Fleet.run_cons, hstep]
      exact ih (Function.update_self ..) (underway_answer h chance)

theorem atRest_of_underway (h : Underway key s (.done (.ok .never))) : AtRest key s := by
  generalize hp : Plan.done (Except.ok Requeue.never) = p at h
  cases h with
  | begun => cases hp
  | marking => cases hp
  | @reading m h _ hm hmark hc hs =>
    subst hp
    cases hc with
    | settled hshows hd hup =>
      intro m' hm'
      rw [hm] at hm'
      cases hm'
      exact .inr ⟨hd, hmark, hup, hs true hshows⟩
  | ended hr =>
    cases hp
    exact hr rfl

/-! ## A machine at rest -/

/-- A reconcile that has nothing to do but look. -/
inductive Idle (key : Key) (s : Site) : MachinePlan → Prop
  | begun : Idle key s (machine key)
  | reading {m : Machine} {h : Heard} {p : MachinePlan} : s.store.get? key = some m → m.hasMarker machineMarker →
      Course m h p → h = .nothing ∨ h = .connected ∨ h = .looked true → Idle key s p
  | ended : Idle key s (.done (.ok .never))

theorem idle_afterRead (hrest : AtRest key s) {m : Machine} (hm : s.store.get? key = some m) :
    Idle key s (afterRead m) := by
  rcases afterRead_cases m with ⟨_, _, hdone⟩ | ⟨hd, hmark, _⟩ | ⟨hmark, hc⟩
  · rw [hdone]
    exact .ended
  · rcases hrest m hm with ⟨hd', _⟩ | ⟨_, hmark', _⟩
    · exact absurd hd' hd
    · exact absurd hmark' hmark
  · exact .reading hm hmark hc (.inl rfl)

/-- At rest, what a reconcile does next is harmless, and leaves it with nothing to do. -/
theorem idle_answer (hrest : AtRest key s) {c : ReconcileCall .machine} {next : c.Answer → MachinePlan}
    (h : Idle key s (.call c next)) :
    c.Harmless ∧ ∀ chance : Chance, chance.report = .ok () →
      (s.answer key chance c).2 = s ∧ Idle key s (next (s.answer key chance c).1) := by
  generalize hp : Plan.call c next = p at h
  cases h with
  | begun =>
    rw [machine_eq_onRead] at hp
    cases hp
    refine ⟨trivial, fun chance _ => ⟨rfl, ?_⟩⟩
    show Idle key s (onRead (.ok (s.store.get? key)))
    cases hm : s.store.get? key with
    | none => exact .ended
    | some m => exact idle_afterRead hrest hm
  | @reading m h _ hm hmark hc hh =>
    subst hp
    rcases hrest m hm with ⟨_, hmark'⟩ | ⟨hd, _, hup, hthere⟩
    · exact absurd hmark hmark'
    cases hc with
    | @connect next _ hok =>
      refine ⟨Bool.false_ne_true, fun chance hr => ⟨rfl, ?_⟩⟩
      show Idle key s (next chance.report)
      rw [hr]
      exact .reading hm hmark hok (.inr (.inl rfl))
    | @look next _ hok =>
      refine ⟨Bool.false_ne_true, fun chance hr => ⟨rfl, ?_⟩⟩
      show Idle key s (next (chance.report.map fun _ => (s.instances m.instanceName).isSome))
      rw [hr, hthere]
      exact .reading hm hmark (hok true) (.inr (.inr rfl))
    | clock hnext => exact ⟨trivial, fun chance _ => ⟨rfl, .reading hm hmark (hnext _) hh⟩⟩
    | create | confirm => rcases hh with h | h | h <;> cases h
    | delete hd' => exact absurd hd' hd
    | release _ hd' => exact absurd hd' hd
    | record _ _ _ hnews => exact absurd hup hnews
    | tell fault now ha _ => rcases hh with rfl | rfl | rfl <;> exact ha.elim
  | ended => cases hp

/-- A course that is over without a fault ends with `never`. -/
theorem idle_done {r : Except ReconcileFault Requeue} (h : Idle key s (.done r)) : r = .ok .never := by
  generalize hp : Plan.done r = p at h
  cases h with
  | begun => cases hp
  | @reading m h _ hm hmark hc hh =>
    subst hp
    cases hc with
    | told fault ha _ => rcases hh with rfl | rfl | rfl <;> exact ha.elim
    | settled => rfl
  | ended =>
    cases hp
    rfl

/-- The site is this one, and the reconcile of the key has nothing to do. -/
structure Steady (key : Key) (s : Site) (f : Fleet) : Prop where
  site : f.site = s
  idle : ∀ p, f.flights key = some p → Idle key s p

theorem steady_step (hrest : AtRest key s) {f : Fleet} (h : Steady key s f) {m : Fleet.Move} (hm : Fleet.Calm key m) :
    Steady key s (f.step m) := by
  cases m with
  | start k =>
    cases hm
    simp only [Fleet.step]
    split
    · exact h
    · refine ⟨h.site, fun p hp => ?_⟩
      simp only [Function.update_self, Option.some.injEq] at hp
      rw [← hp]
      exact .begun
  | stop k =>
    cases hm
    refine ⟨h.site, fun p hp => ?_⟩
    simp [Fleet.step] at hp
  | proceed k chance =>
    obtain ⟨rfl, hr⟩ := hm
    simp only [Fleet.step]
    split
    · rename_i c next hf
      obtain ⟨hsite, hidle⟩ := (idle_answer hrest (h.idle _ hf)).2 chance hr
      rw [h.site]
      refine ⟨hsite, fun p hp => ?_⟩
      simp only [Function.update_self, Option.some.injEq] at hp
      rw [← hp]
      exact hidle
    · exact h
  | client | appear | vanish => exact hm.elim

theorem steady_run (hrest : AtRest key s) {f : Fleet} (h : Steady key s f) {ms : List Fleet.Move}
    (hms : ∀ m ∈ ms, Fleet.Calm key m) : Steady key s (f.run ms) := by
  induction ms generalizing f with
  | nil => exact h
  | cons m ms ih =>
    refine ih (steady_step hrest h (hms m (List.mem_cons_self ..))) fun m' hm' => ?_
    exact hms m' (List.mem_cons_of_mem m hm')

/-! ## Writes are news -/

/-- What reconciles of a stored machine write. One changes the version, by one, where it changes
something else of the machine, and leaves it as it is otherwise. One that fails as the condition
tells already writes nothing, and neither do those that follow it. And once one of them has
returned `never`, with looks that were truthful, the machine is at rest: further ones only look. -/
theorem writes_only_news {s : Memory .machine} {m : Machine} (hm : s.get? m.key = some m) :
    (∀ (w : Surroundings) m', (w.carry (machine m.key) 0 s).store.get? m.key = some m' → Versioned m m') ∧
    (∀ ws, (∀ r ∈ again m.key ws s, ∃ fault, r.result = some (.error fault) ∧ Tells m fault m.status.conditions) →
      ∀ r ∈ again m.key ws s, r.store = s ∧ r.writes = []) ∧
    ∀ (f : Fleet) (chances : List Chance), f.flights m.key = some (machine m.key) →
      let rested := f.run (chances.map (.proceed m.key))
      rested.flights m.key = some (.done (.ok .never)) → ∀ ms : List Fleet.Move, (∀ mv ∈ ms, Fleet.Calm m.key mv) →
        (rested.run ms).site = rested.site ∧ (∀ c, (rested.run ms).Issues m.key c → c.Harmless) ∧
          ∀ r, (rested.run ms).flights m.key = some (.done r) → r = .ok .never := by
  refine ⟨fun w m' hm' => (wrote_machine w hm).versioned hm hm', fun ws h => again_tells hm h, ?_⟩
  intro f chances hf rested hnever ms hms
  obtain ⟨p, hp, hunderway⟩ := underway_run hf .begun chances
  have hdone : some p = some (.done (.ok .never)) := hp.symm.trans hnever
  cases hdone
  have hrest : AtRest m.key rested.site := atRest_of_underway hunderway
  have hsteady : Steady m.key rested.site rested := by
    refine ⟨rfl, fun p hp => ?_⟩
    have hp' : some p = some (.done (.ok .never)) := hp.symm.trans hnever
    cases hp'
    exact .ended
  have hrun := steady_run hrest hsteady hms
  refine ⟨hrun.site, fun c hc => ?_, fun r hr => idle_done (hrun.idle _ hr)⟩
  obtain ⟨next, hnext⟩ := hc
  exact (idle_answer hrest (hrun.idle _ hnext)).1

/-- A machine whose condition tells that its create has timed out. -/
def toldMachine : Machine :=
  let m := newMachine ⟨"default", "w1"⟩ [machineMarker]
  { m with status.conditions := [failedCondition m (.backend (.create "w1" "timed out")) someTime] }

/-- That machine is stored, and its reconcile is about to begin. -/
def toldFleet : Fleet where
  site := ⟨Catalog.empty.insert toldMachine.key toldMachine, fun _ => none, by
    intro key o h
    rw [Catalog.get?_insert] at h
    split at h
    · cases h
      assumption
    · cases h⟩
  flights := Function.update (fun _ => none) toldMachine.key (some (machine toldMachine.key))

/-- The create times out again, twice; and another one is seen to have worked, so that a second
round of it has nothing left to do. -/
theorem writes_only_news_told :
    let m := toldMachine
    let s := toldFleet.site.store
    let rested := toldFleet.run (List.replicate 7 (.proceed m.key Fleet.lucky))
    let round := [.stop m.key, .start m.key] ++ List.replicate 4 (.proceed m.key Fleet.lucky)
    s.get? m.key = some m ∧
      (∀ r ∈ again m.key [timedOut, timedOut] s, r.store = s ∧ r.writes = []) ∧
      rested.flights m.key = some (.done (.ok .never)) ∧
      (rested.run round).flights m.key = some (.done (.ok .never)) ∧ (rested.run round).site = rested.site := by
  intro m s rested round
  have hm : s.get? m.key = some m := get?_insert_self Catalog.empty m m
  obtain ⟨-, htold, hrest⟩ := writes_only_news hm
  have hnever : rested.flights m.key = some (.done (.ok .never)) := by rfl
  refine ⟨hm, htold _ ?_, hnever, rfl, ?_⟩
  · intro r hr
    refine ⟨.backend (.create "w1" "timed out"), ?_, _, rfl, rfl, rfl, rfl, rfl⟩
    simp only [again, List.mem_cons, List.not_mem_nil, or_false] at hr
    rcases hr with rfl | rfl
    · rfl
    · rfl
  · refine (hrest toldFleet (List.replicate 7 Fleet.lucky) rfl hnever round ?_).1
    simp [round, Fleet.Calm, Fleet.lucky]

end MachineKeeper
