/-
  MachineKeeper.Proofs.Rehearsal.Recovery — whatever went wrong before, one more sync puts it right.

  A bench is a world with one reconcile of one machine in it, carried out call by call. It may be
  broken off between any two of its calls and begun anew; meanwhile clients ask for the machine's
  deletion, the backend's faults are set and unset, and time goes by. Only the reconcile changes
  the backend.

  What the backend said last, if it was asked whether an instance exists, is so until the
  reconcile makes its next change (`Watched`), because a reconcile makes a change right after it
  looked: so no create meets an instance that is there already.

  For the recovery it does not matter what came before. A sync without faults takes a machine
  from any state, half created and half deleted ones too, to where it should be: the first
  attempt sees to the marker if there is none, and the next one to the instance.

  Proved:
  - `inv_run`: the invariant holds on every bench.
  - `ends_sync`: a sync in a calm world ends well and puts the machine right, if it has a deadline.
  - `recovers_iff`: all of it, of every bench.
  - `overlong_timeout_recovers_nothing`: a timeout that is taken and with which nothing is recovered.
-/

import MachineKeeper.Proofs.Reconcile.Gate
import MachineKeeper.Proofs.Rehearsal.Requeues

namespace MachineKeeper.Rehearsal

open Reconcile (MachinePlan foreignMarkers Wary)

/-! ## A sync -/

/-- What a sync makes of the machine that was stored before. -/
structure Recovered (key : Key) (w w' : World) : Prop where
  live : ∀ m, w.shelf.stored .machine key = some m → ¬m.metadata.deletionRequested →
    ∃ m', w'.shelf.stored .machine key = some m' ∧ m'.instanceName = m.instanceName ∧
      w'.simulated.contains m'.instanceName ∧ m'.status.instanceId = m'.instanceName ∧ m'.hasMarker machineMarker ∧
      ∃ c, Condition.find? Reconcile.readyType m'.status.conditions = some c ∧ c.status = .yes ∧
        c.observedGeneration = m'.metadata.generation
  deleting : ∀ m, w.shelf.stored .machine key = some m → m.metadata.deletionRequested → m.hasMarker machineMarker →
    ¬w'.simulated.contains m.instanceName ∧
      (w'.shelf.stored .machine key = none ↔ foreignMarkers m = []) ∧
      ∀ m', w'.shelf.stored .machine key = some m' → ¬m'.hasMarker machineMarker

/-- Who answers a sync. -/
def syncing : (c : SyncCall) → Act c.Answer
  | .clock => ask .clock
  | .interruption ctx => ask (.interruption ctx)
  | .reconcile ctx key => keeper .simulated .machine ctx key

theorem syncAct_eq (config : WorkerConfig) (ctx : Context) (key : Key) :
    syncAct (keeper .simulated .machine) config ctx key = (Sync.plan config ctx key).via syncing := rfl

section

variable {limit : Instant} {ctx child : Context} {timeout : Nat} {key : Key} {start w : World}
  {again : SyncPlan Attempt} {Q : Attempt → World → Prop}

theorem attempt_eq : (Sync.attempt ctx timeout key again).via syncing = .call .clock fun now =>
    match ctx.withTimeout? now timeout with
    | none => .done .crashed
    | some child => (act child (Reconcile.machine key)).bind fun
      | .ok .immediate => again.via syncing
      | r => .done (.finished r) := by
  refine congrArg (Plan.call World.Call.clock) (funext fun now => ?_)
  dsimp only [Plan.done_bind]
  cases ctx.withTimeout? now timeout with
  | none => rfl
  | some child =>
    refine (Plan.bind_assoc (act child (Reconcile.machine key)) _ _).trans ?_
    refine congrArg (Plan.bind _) (funext fun r => ?_)
    match r with
    | .ok .immediate => rfl
    | .ok .never => rfl
    | .ok (.after _) => rfl
    | .error _ => rfl

theorem ends_attempt (hchild : ctx.withTimeout? w.now timeout = some child)
    (h : Ends limit (act child (Reconcile.machine key)) w fun r w' => match r with
      | .ok .immediate => Ends limit (again.via syncing) w' Q
      | r => Q (.finished r) w') : Ends limit ((Sync.attempt ctx timeout key again).via syncing) w Q := by
  rw [attempt_eq]
  refine ends_call rfl ?_
  simp only [hchild]
  refine ends_bind (h.imp fun r w' hr => ?_)
  match r, hr with
  | .ok .immediate, hr => exact hr
  | .ok .never, hr => exact ends_done hr
  | .ok (.after _), hr => exact ends_done hr
  | .error _, hr => exact ends_done hr

/-- An attempt that is not to be followed by another one at once. -/
theorem ends_last (hchild : ctx.withTimeout? w.now timeout = some child)
    (h : Ends limit (act child (Reconcile.machine key)) w fun r w' => r = .ok .never ∧ Q (.finished (.ok .never)) w') :
    Ends limit ((Sync.attempt ctx timeout key again).via syncing) w Q := by
  refine ends_attempt hchild (h.imp fun r w' hr => ?_)
  obtain ⟨rfl, hQ⟩ := hr
  exact hQ

end

theorem interruption_eq_none_iff {signals : List Signal} {ctx : Context} {now : Instant} :
    ctx.interruption signals now = none ↔
      (ctx.signalOf signals).any (·.valueAt now) = false ∧ ∀ d, ctx.deadline = some d → now < d := by
  unfold Context.interruption
  cases (ctx.signalOf signals).any (·.valueAt now) with
  | true => simp
  | false => cases ctx.deadline <;> simp

/-- An attempt that is begun in time has some time left. -/
theorem interruption_expiringAt {signals : List Signal} {ctx : Context} {now : Instant} {timeout : Nat}
    (h : ctx.interruption signals now = none) (htimeout : 0 < timeout) :
    (ctx.expiringAt (now + timeout)).interruption signals now = none := by
  rw [interruption_eq_none_iff] at h ⊢
  refine ⟨h.1, fun d hd => ?_⟩
  cases hdeadline : ctx.deadline with
  | none =>
    simp only [Context.expiringAt, hdeadline, earliest, Option.some.injEq] at hd
    exact hd ▸ Nat.lt_add_of_pos_right htimeout
  | some d' =>
    simp only [Context.expiringAt, hdeadline, earliest, Option.some.injEq] at hd
    exact hd ▸ Nat.lt_min.mpr ⟨h.2 d' hdeadline, Nat.lt_add_of_pos_right htimeout⟩

theorem scene_start {w : World} (h : Quiet w) (hfaults : w.simulated.faults = .none) {key : Key} {o : Option Machine}
    (ho : w.shelf.stored .machine key = o) (name : String) :
    Scene w key o name (w.simulated.contains name) w :=
  { h with now := rfl, signals := rfl, faults := hfaults, stored := ho, there := rfl }

/-- The machine after a sync that has found it live, as `first` says, and looked after its instance. -/
theorem recovered_live {key : Key} {w w' start : World} {m first m' : Machine}
    (hm : w.shelf.stored .machine key = some m) (hd : ¬m.metadata.deletionRequested)
    (hname : first.instanceName = m.instanceName) (hsettled : Settled first m')
    (h : Scene start key (some m') first.instanceName true w') : Recovered key w w' where
  live o ho _ := by
    cases hm.symm.trans ho
    have hsame := hsettled.instanceName
    refine ⟨m', h.stored, hsame.trans hname, ?_, hsettled.instanceId.trans hsame.symm, hsettled.marker, hsettled.ready⟩
    rw [hsame]
    exact h.there
  deleting o ho hdeleting := by
    cases hm.symm.trans ho
    exact absurd hdeleting hd

theorem recovered_deleting {key : Key} {w w' start : World} {m : Machine}
    (hm : w.shelf.stored .machine key = some m) (hd : m.metadata.deletionRequested)
    (h : Scene start key (if foreignMarkers m = [] then none else some (m.withMarkers (foreignMarkers m)))
      m.instanceName false w') : Recovered key w w' where
  live o ho hlive := by
    cases hm.symm.trans ho
    exact absurd hd hlive
  deleting o ho _ _ := by
    cases hm.symm.trans ho
    refine ⟨by simp [h.there], ?_, fun m' hm' => ?_⟩
    · rw [h.stored]
      split <;> simp [*]
    · rw [h.stored] at hm'
      split at hm'
      · cases hm'
      · cases hm'
        simp [Object.hasMarker_iff, Object.withMarkers, foreignMarkers]

/-- Nothing is to be done about a machine that is not stored, or whose marker is off for good. -/
theorem recovered_idle {key : Key} {w w' : World}
    (h : ∀ m, w.shelf.stored .machine key = some m → m.metadata.deletionRequested ∧ ¬m.hasMarker machineMarker) :
    Recovered key w w' where
  live m hm hlive := absurd (h m hm).1 hlive
  deleting m hm _ hmark := absurd hmark (h m hm).2

theorem ends_sync {limit : Instant} {config : WorkerConfig} {ctx : Context} {w : World} (h : Quiet w)
    (hfaults : w.simulated.faults = .none) (hrequeues : 1 ≤ config.maxRequeues) (htimeout : 0 < config.timeout)
    (hctx : w.interruption ctx = none) (hlast : w.now + config.timeout ≤ lastInstant) (key : Key) :
    Ends limit (syncAct (keeper .simulated .machine) config ctx key) w fun a w' =>
      a = .finished (.ok .never) ∧ Recovered key w w' := by
  obtain ⟨n, hn⟩ : ∃ n, config.maxRequeues = n + 1 := ⟨config.maxRequeues - 1, by omega⟩
  obtain ⟨child, hchild, hctx'⟩ : ∃ child, ctx.withTimeout? w.now config.timeout = some child ∧
      w.interruption child = none := by
    rw [Context.withTimeout?, Deadline.after?, if_pos hlast]
    exact ⟨_, rfl, interruption_expiringAt hctx htimeout⟩
  rw [syncAct_eq, Sync.plan, hn, Sync.attempts]
  cases ho : w.shelf.stored .machine key with
  | none =>
    have hidle : ∀ m : Machine, none = some m → m.metadata.deletionRequested ∧ ¬m.hasMarker machineMarker := by
      rintro m ⟨⟩
    refine ends_last hchild (((scene_start h hfaults ho "").ends_idle hidle).imp fun r w' hr => ⟨hr.1, rfl, ?_⟩)
    exact recovered_idle fun m hm => hidle m (ho.symm.trans hm)
  | some m =>
    obtain rfl := h.key_of_stored ho
    have hscene := scene_start h hfaults ho m.instanceName
    by_cases hd : m.metadata.deletionRequested = true <;> by_cases hmark : m.hasMarker machineMarker = true
    · refine ends_last hchild ((hscene.ends_deleting hctx' hd hmark).imp fun r w' hr => ⟨hr.1, rfl, ?_⟩)
      exact recovered_deleting ho hd hr.2
    · have hidle : ∀ m', some m = some m' → m'.metadata.deletionRequested ∧ ¬m'.hasMarker machineMarker := by
        rintro _ ⟨⟩
        exact ⟨hd, hmark⟩
      refine ends_last hchild ((hscene.ends_idle hidle).imp fun r w' hr => ⟨hr.1, rfl, ?_⟩)
      exact recovered_idle fun m' hm' => hidle m' (ho.symm.trans hm')
    · refine ends_last hchild ((hscene.ends_live hctx' hd hmark).imp fun r w' hr => ⟨hr.1, rfl, ?_⟩)
      obtain ⟨-, m', hsettled, h'⟩ := hr
      exact recovered_live ho hd rfl hsettled h'
    · -- the first attempt puts the marker on, and the second sees to the instance
      refine ends_attempt hchild ((hscene.ends_unmarked hd hmark).imp fun r w' hr => ?_)
      obtain ⟨rfl, h'⟩ := hr
      refine ends_call rfl ?_
      rw [h'.uninterrupted hctx]
      obtain ⟨again, hagain⟩ := Sync.exists_attempt ctx config.timeout m.key n
      simp only [Plan.done_bind, hagain]
      let first : Machine := m.withMarkers (m.metadata.finalizers ++ [machineMarker])
      have hfirst : first.hasMarker machineMarker := by simp [first, Object.hasMarker_iff, Object.withMarkers]
      have hscene' : Scene w first.key (some first) first.instanceName _ w' := h'
      rw [← h'.now] at hchild
      refine ends_last hchild ((hscene'.ends_live hctx' hd hfirst).imp fun r w' hr => ⟨hr.1, rfl, ?_⟩)
      obtain ⟨-, m', hsettled, h''⟩ := hr
      have hname : first.instanceName = m.instanceName := rfl
      exact recovered_live ho hd hname hsettled h''

/-! ## Benches -/

/-- A world with one reconcile in it, or what is left of one. -/
structure Bench where
  world : World
  flight : Option (Act (Except ReconcileFault Requeue))

inductive Bench.Move where
  /-- A client asks for the deletion of the machine. -/
  | delete
  | start (ctx : Context)
  /-- The reconcile makes its next call. -/
  | proceed
  /-- The reconcile is broken off. -/
  | stop
  | setFaults (faults : Simulated.Faults)
  /-- Time goes by, and signals change. -/
  | elapse (now : Instant) (wall : Timestamp) (signals : List Signal)

namespace Bench

/-- The machine is created in an empty store, and those instances are there. -/
def start (shelf : Shelf) (wall : Timestamp) (instances : Catalog String InstanceRequest) (m : Machine) : Bench :=
  let w := { World.start wall shelf with simulated.instances := instances }
  ⟨(w.store .machine (.create m)).2, none⟩

def move (key : Key) (b : Bench) : Move → Bench
  | .delete => { b with world := (b.world.store .machine (.delete key)).2 }
  | .start ctx => { b with flight := some (reconcileAct .simulated ctx .machine key) }
  | .proceed => match b.flight with
    | some (.call c next) => match b.world.perform c with
      | (.atOnce a, w) => ⟨w, some (next a)⟩
      | (_, w) => ⟨w, none⟩
    | _ => b
  | .stop => { b with flight := none }
  | .setFaults faults => { b with world.simulated.faults := faults }
  | .elapse now wall signals => { b with world := { b.world with now := now, wall := wall, signals := signals } }

def run (key : Key) (b : Bench) (moves : List Move) : Bench := moves.foldl (move key) b

/-- What the backend said last about an instance is so. -/
def Truthful (w : World) (l : BackendTrace) : Prop :=
  ∀ name there, l.getLast? = some ⟨.exist name, .ok there⟩ → w.simulated.contains name = there

/-- The reconcile has not read its machine yet, or has talked with the backend as it may, and what it
heard last is so. -/
inductive Watched (key : Key) : Bench → Prop
  | idle (w : World) : Watched key ⟨w, none⟩
  | begun (w : World) (ctx : Context) : Watched key ⟨w, some (act ctx (Reconcile.machine key))⟩
  | underway (w : World) (ctx : Context) (m : Machine) (p : MachinePlan) (l : BackendTrace) : Wary m p l →
      Truthful w l → Watched key ⟨w, some (act ctx p)⟩
  | ended (w : World) (r : Except ReconcileFault Requeue) : Watched key ⟨w, some (.done r)⟩

structure Inv (key : Key) (b : Bench) : Prop where
  quiet : Quiet b.world
  watched : Watched key b

theorem Watched.of_simulated {key : Key} {w w' : World} {flight : Option (Act (Except ReconcileFault Requeue))}
    (h : Watched key ⟨w, flight⟩) (hw : w'.simulated.instances = w.simulated.instances) : Watched key ⟨w', flight⟩ := by
  cases h with
  | idle => exact .idle w'
  | begun _ ctx => exact .begun w' ctx
  | underway _ ctx m p l hp hl =>
    refine .underway w' ctx m p l hp fun name there hlast => ?_
    rw [← hl name there hlast, Simulated.contains, Simulated.contains, hw]
  | ended _ r => exact .ended w' r

/-- An answer about an instance is true. -/
theorem contains_of_exist {why : Option Interruption} {s : Simulated} {name : String} {there : Bool}
    (h : (s.perform why (.exist name)).1 = .ok there) : (s.perform why (.exist name)).2.contains name = there := by
  cases why with
  | some why => cases h
  | none =>
    cases hconnect : s.faults.connect <;> cases hexist : s.faults.exist <;>
      simp [Simulated.perform, Simulated.check, Simulated.exist, hconnect, hexist] at h ⊢
    exact h

/-- The call of a plan, made in the world. -/
theorem move_store (key : Key) (w : World) (ctx : Context) (c : StoreCall .machine) (next : c.Answer → MachinePlan) :
    move key ⟨w, some (act ctx (.call (.store c) next))⟩ .proceed =
      ⟨(w.store .machine c).2, some (act ctx (next (w.store .machine c).1))⟩ := rfl

theorem move_backend (key : Key) (w : World) (ctx : Context) (c : BackendCall) (next : c.Answer → MachinePlan) :
    move key ⟨w, some (act ctx (.call (.backend c) next))⟩ .proceed =
      ⟨{ w with
          simulated := (w.simulated.perform (w.interruption ctx) c).2
          log := w.log ++ [.backend c] },
        some (act ctx (next (w.simulated.perform (w.interruption ctx) c).1))⟩ := rfl

/-- One call of a reconcile that is under way. -/
theorem inv_proceed {key : Key} {w : World} {ctx : Context} {m : Machine} {p : MachinePlan} {l : BackendTrace}
    (hq : Quiet w) (hp : Wary m p l) (hl : Truthful w l) : Inv key (move key ⟨w, some (act ctx p)⟩ .proceed) := by
  match p, hp with
  | .done r, hp => exact ⟨hq, .ended w r⟩
  | .call .wallClock next, hp => exact ⟨hq, .underway w ctx m _ l (hp.2 w.wall) hl⟩
  | .call (.store c) next, hp =>
    have hc : ∀ e, c ≠ .create e := by
      rintro e rfl
      exact hp.2.1
    rw [move_store]
    refine ⟨hq.store _, .of_simulated (.underway w ctx m _ l (hp.2.2 _) hl) ?_⟩
    rw [hq.store_eq hc]
  | .call (.backend c) next, hp =>
    rw [move_backend]
    refine ⟨{ hq with }, .underway _ ctx m _ _ (hp.2 _) fun name there hlast => ?_⟩
    rw [List.getLast?_concat] at hlast
    generalize hx : (w.simulated.perform (w.interruption ctx) c).1 = x at hlast
    cases hlast
    exact contains_of_exist hx

theorem inv_move {key : Key} {b : Bench} (h : Inv key b) (mv : Move) : Inv key (b.move key mv) := by
  obtain ⟨w, flight⟩ := b
  obtain ⟨hq, hwatched⟩ := h
  cases mv with
  | delete =>
    have hc : ∀ e : Machine, StoreCall.delete key ≠ .create e := fun _ he => by cases he
    refine ⟨hq.store (.delete key), hwatched.of_simulated ?_⟩
    simp only [hq.store_eq hc]
  | start ctx => exact ⟨hq, .begun w ctx⟩
  | stop => exact ⟨hq, .idle w⟩
  | setFaults faults => exact ⟨{ hq with }, hwatched.of_simulated rfl⟩
  | elapse now wall signals => exact ⟨{ hq with }, hwatched.of_simulated rfl⟩
  | proceed =>
    cases hwatched with
    | idle => exact ⟨hq, .idle w⟩
    | ended _ r => exact ⟨hq, .ended w r⟩
    | underway _ ctx m p l hp hl => exact inv_proceed hq hp hl
    | begun _ ctx =>
      rw [Reconcile.machine_eq, move_store]
      refine ⟨hq.store (.get key), ?_⟩
      match (w.store .machine (.get key)).1 with
      | .error fault => exact .ended _ _
      | .ok none => exact .ended _ _
      | .ok (some m) =>
        refine .underway _ ctx m (Reconcile.afterRead m) [] (Reconcile.wary_machine m) ?_
        rintro name there ⟨⟩

theorem inv_run {key : Key} {b : Bench} (h : Inv key b) (moves : List Move) : Inv key (b.run key moves) := by
  induction moves generalizing b with
  | nil => exact h
  | cons mv moves ih => exact ih (inv_move h mv)

theorem inv_start {shelf : Shelf} (hshelf : shelf ∈ [Shelf.emptyMemory, Shelf.emptyTable]) (wall : Timestamp)
    (instances : Catalog String InstanceRequest) (m : Machine) : Inv m.key (start shelf wall instances m) := by
  have hquiet : Quiet { World.start wall shelf with simulated.instances := instances } :=
    ⟨rfl, rfl, _, Shelf.holds_empty hshelf⟩
  exact ⟨hquiet.store _, .idle _⟩

/-- The next call of the reconcile is no create of an instance that is there. -/
theorem not_contains_of_create {key : Key} {b : Bench} (h : Watched key b) {ctx : Context} {r : InstanceRequest}
    {next : Except BackendFault Unit → Act (Except ReconcileFault Requeue)}
    (hnext : b.flight = some (.call (.simulated ctx (.create r)) next)) : ¬b.world.simulated.contains r.name := by
  cases h with
  | idle w => cases hnext
  | begun w ctx => cases hnext
  | ended w r => cases hnext
  | underway w ctx' m p l hp hl =>
    match p, hp with
    | .done r, hp => cases hnext
    | .call .wallClock next, hp => cases hnext
    | .call (.store c) next, hp => cases hnext
    | .call (.backend c) next, hp =>
      cases hnext
      have htalk := (hp.2 (.ok ())).talks
      have hname : r.name = m.instanceName := by
        rcases htalk.names (.create r) (by simp) with he | he | he | he
        · cases he
        · cases he
        · cases he
          rfl
        · cases he
      rw [hname, hl m.instanceName false htalk.mayCall.2.2]
      exact Bool.false_ne_true

end Bench

/-- However a machine has been reconciled, no create ever meets an instance that is there. One more sync without faults puts
everything right if and only if its timeout does not go beyond the last instant; if it does, the sync crashes and changes
nothing. -/
theorem recovers_iff {s : Shelf} (hs : s ∈ [Shelf.emptyMemory, Shelf.emptyTable]) (wall : Timestamp)
    (instances : Catalog String InstanceRequest) (m : Machine) (moves : List Bench.Move) :
    let b := (Bench.start s wall instances m).run m.key moves
    (∀ ctx r next, b.flight = some (.call (.simulated ctx (.create r)) next) → ¬b.world.simulated.contains r.name) ∧
      ∀ limit config ctx, 1 ≤ config.maxRequeues → 0 < config.timeout → b.world.interruption ctx = none →
        let w := { b.world with simulated.faults := .none }
        let sync := syncAct (keeper .simulated .machine) config ctx m.key
        ((Ends limit sync w fun a w' => a = .finished (.ok .never) ∧ Recovered m.key w w') ↔
          w.now + config.timeout ≤ lastInstant) ∧
        (lastInstant < w.now + config.timeout → play limit sync w = (some .crashed, w)) := by
  intro b
  have hinv : Bench.Inv m.key b := Bench.inv_run (Bench.inv_start hs wall instances m) moves
  refine ⟨fun ctx r next hnext => Bench.not_contains_of_create hinv.watched hnext, ?_⟩
  intro limit config ctx hrequeues htimeout hctx w sync
  have hlate : lastInstant < w.now + config.timeout → play limit sync w = (some .crashed, w) := play_late
  refine ⟨⟨?_, ?_⟩, hlate⟩
  · intro hends
    refine Nat.le_of_not_lt fun hover => ?_
    obtain ⟨a, w', hplay, ha, -⟩ := hends
    rw [hlate hover] at hplay
    cases hplay
    cases ha
  · intro hlast
    have hquiet : Quiet w := { hinv.quiet with }
    exact ends_sync hquiet rfl hrequeues htimeout hctx hlast m.key

/-- The marker is put on; then a create fails and leaves the instance behind, and the reconcile breaks off. -/
def halfCreated : List Bench.Move :=
  [.start .background, .proceed, .proceed, .start .background, .proceed, .proceed, .proceed,
    .setFaults { Simulated.Faults.none with create := true, createLeavesInstance := true }, .proceed, .stop]

/-- The world that is left then. -/
def leftHalfCreated : World :=
  ((Bench.start .emptyMemory someTime Catalog.empty (newMachine ⟨"default", "w1"⟩ [])).run ⟨"default", "w1"⟩
    halfCreated).world

theorem recovers_iff_halfCreated :
    leftHalfCreated.simulated.contains "w1" ∧
      (leftHalfCreated.shelf.stored .machine ⟨"default", "w1"⟩).map (·.status.instanceId) = some "" ∧
      let w := { leftHalfCreated with simulated.faults := .none }
      Ends 0 (syncAct (keeper .simulated .machine) .standard .background ⟨"default", "w1"⟩) w fun a w' =>
        a = .finished (.ok .never) ∧ Recovered ⟨"default", "w1"⟩ w w' := by
  have hsync := (recovers_iff (s := .emptyMemory) List.mem_cons_self someTime Catalog.empty
    (newMachine ⟨"default", "w1"⟩ []) halfCreated).2 0 .standard .background
  have hlast : leftHalfCreated.now + WorkerConfig.standard.timeout ≤ lastInstant := by
    rw [show leftHalfCreated.now = 0 from rfl]
    decide
  have hiff := (hsync (by decide) (by decide) (by decide)).1
  exact ⟨by decide, by decide, hiff.mpr hlast⟩

/-- A timeout of 2^63 seconds, which the settings take, is of no help to the same machine: the instance that is left is not
found. -/
theorem overlong_timeout_recovers_nothing :
    ∃ s, Settings.read Settings.tooLong = .ok s ∧
      let config := { WorkerConfig.standard with timeout := s.timeout }
      let w := { leftHalfCreated with simulated.faults := .none }
      1 ≤ config.maxRequeues ∧ 0 < config.timeout ∧ w.interruption .background = none ∧
        play 0 (syncAct (keeper .simulated .machine) config .background ⟨"default", "w1"⟩) w = (some .crashed, w) ∧
        ¬Recovered ⟨"default", "w1"⟩ w w := by
  refine ⟨_, Settings.read_tooLong, by decide, by decide, rfl, play_late (by decide), ?_⟩
  intro h
  have hstored : (leftHalfCreated.shelf.stored .machine ⟨"default", "w1"⟩).map
      (fun m => (m.metadata.deletionRequested, m.status.instanceId, m.instanceName)) = some (false, "", "w1") := by decide
  obtain ⟨m, hm, hfields⟩ := Option.map_eq_some_iff.mp hstored
  obtain ⟨hlive, hid, hname⟩ : m.metadata.deletionRequested = false ∧ m.status.instanceId = "" ∧ m.instanceName = "w1" := by
    simpa using hfields
  obtain ⟨m', hm', -, -, hid', -⟩ := h.live m hm (by simp [hlive])
  cases hm.symm.trans hm'
  rw [hid, hname] at hid'
  exact absurd hid' (by decide)

end MachineKeeper.Rehearsal
