/-
  MachineKeeper.Proofs.Rehearsal.Twins — syncs that go the same way.

  A sync of a key has a lane of its own (`Lane`): the machine under the key and the instance that
  it stands for. It asks for nothing else, but for the time.

  Two plans are twins if they make the same calls, each within the lane, and stay twins however
  these are answered, as long as they are answered alike: with machines that are the same up to
  the times in their conditions, at whatever time, and under contexts that are not done. The plans
  are followed as trees, so there is one rule for each kind of call and one for plans put
  together, and a sync is shown to be its own twin part by part.

  Proved:
  - `twins_sync`: whatever a sync has been told about the time, it goes the same way.
  - `prompt_sync`: a sync that is begun in time is never late, where the clock stands still.
-/

import MachineKeeper.Proofs.Fleet.Watch
import MachineKeeper.Proofs.Reconcile.Timeless
import MachineKeeper.Proofs.Rehearsal.Recovery

namespace MachineKeeper.Rehearsal

open Reconcile (MachinePlan)

/-- What a sync has to itself: the place of its machine, and the instance of that name. -/
structure Lane where
  key : Key
  name : String

namespace Lane

/-- What may be found in the lane. -/
def Keeps (L : Lane) (o : Option Machine) : Prop := ∀ m, o = some m → m.key = L.key ∧ m.instanceName = L.name

end Lane

/-- Answers to a write, with the same fault or with none. -/
inductive Answered : Except StoreFault Machine → Except StoreFault Machine → Prop
  | error (fault : StoreFault) : Answered (.error fault) (.error fault)
  | ok (m m' : Machine) : Answered (.ok m) (.ok m')

/-- An attempt that begins then has a deadline. -/
def Fits (timeout : Nat) (now : Instant) : Prop := now + timeout ≤ lastInstant

/-- The same calls within the lane, whatever the time is. -/
inductive Twins {α : Type} (timeout : Nat) (L : Lane) : Act α → Act α → Prop
  | done (a : α) : Twins timeout L (.done a) (.done a)
  | clock {n n' : Instant → Act α} :
      (∀ t t', (Fits timeout t ↔ Fits timeout t') → Twins timeout L (n t) (n' t')) →
      Twins timeout L (.call .clock n) (.call .clock n')
  | wallClock {n n' : Timestamp → Act α} : (∀ t t', Twins timeout L (n t) (n' t')) →
      Twins timeout L (.call .wallClock n) (.call .wallClock n')
  | interruption (ctx ctx' : Context) {n n' : Option Interruption → Act α} : Twins timeout L (n none) (n' none) →
      Twins timeout L (.call (.interruption ctx) n) (.call (.interruption ctx') n')
  | simulated (ctx ctx' : Context) (c : BackendCall) {n n' : c.Answer → Act α} : (∀ name ∈ c.name?, name = L.name) →
      (∀ x, Twins timeout L (n x) (n' x)) →
      Twins timeout L (.call (.simulated ctx c) n) (.call (.simulated ctx' c) n')
  | get {n n' : Except StoreFault (Option Machine) → Act α} :
      (∀ o o' : Option Machine, o.map Object.timeless = o'.map Object.timeless → L.Keeps o →
        Twins timeout L (n (.ok o)) (n' (.ok o'))) →
      Twins timeout L (.call (.store .machine (.get L.key)) n) (.call (.store .machine (.get L.key)) n')
  | update {o o' : Machine} {n n' : Except StoreFault Machine → Act α} : o.key = L.key → Alike o o' →
      (∀ x x', Answered x x' → Twins timeout L (n x) (n' x')) →
      Twins timeout L (.call (.store .machine (.update o)) n) (.call (.store .machine (.update o')) n')
  | updateStatus {o o' : Machine} {n n' : Except StoreFault Machine → Act α} : o.key = L.key →
      o.instanceName = L.name → Alike o o' → (∀ x x', Answered x x' → Twins timeout L (n x) (n' x')) →
      Twins timeout L (.call (.store .machine (.updateStatus o)) n) (.call (.store .machine (.updateStatus o')) n')

namespace Twins

variable {α β : Type} {timeout : Nat} {L : Lane}

theorem bind {p p' : Act α} {f f' : α → Act β} (h : Twins timeout L p p')
    (hf : ∀ a, Twins timeout L (f a) (f' a)) : Twins timeout L (p.bind f) (p'.bind f') := by
  induction h with
  | done a => exact hf a
  | clock _ ih => exact .clock ih
  | wallClock _ ih => exact .wallClock ih
  | interruption ctx ctx' _ ih => exact .interruption ctx ctx' ih
  | simulated ctx ctx' c hc _ ih => exact .simulated ctx ctx' c hc ih
  | get _ ih => exact .get ih
  | update hk ho _ ih => exact .update hk ho ih
  | updateStatus hk hn ho _ ih => exact .updateStatus hk hn ho ih

/-! ## The parts of a reconcile -/

/-- Two readings of the machine in the lane. -/
structure Reads (L : Lane) (m m' : Machine) : Prop where
  alike : Alike m m'
  key : m.key = L.key
  name : m.instanceName = L.name

variable {ctx ctx' : Context} {m m' : Machine}

theorem concluded {x x' : Except StoreFault Machine} (h : Answered x x') (requeue : Requeue) :
    Twins timeout L (act ctx (Reconcile.concluded requeue x)) (act ctx' (Reconcile.concluded requeue x')) := by
  cases h with
  | error fault => exact .done _
  | ok _ _ => exact .done _

/-- A backend call about the instance of the lane, with what follows each answer. -/
theorem backend {c : BackendCall} {n n' : c.Answer → MachinePlan} (hc : ∀ name ∈ c.name?, name = L.name)
    (hn : ∀ x, Twins timeout L (act ctx (n x)) (act ctx' (n' x))) :
    Twins timeout L (act ctx (.call (.backend c) n)) (act ctx' (.call (.backend c) n')) :=
  .simulated ctx ctx' c hc hn

/-- A look at the wall clock, with what follows each two times. -/
theorem look {n n' : Timestamp → MachinePlan} (hn : ∀ t t', Twins timeout L (act ctx (n t)) (act ctx' (n' t'))) :
    Twins timeout L (act ctx (.call .wallClock n)) (act ctx' (.call .wallClock n')) := .wallClock hn

theorem fail (h : Reads L m m') (fault : ReconcileFault) :
    Twins timeout L (act ctx (Reconcile.fail m fault)) (act ctx' (Reconcile.fail m' fault)) := by
  rw [Reconcile.fail_eq, Reconcile.fail_eq]
  refine look fun t t' => ?_
  rw [Reconcile.failed_changed_eq h.alike fault t t']
  split
  · exact .updateStatus h.key h.name (Reconcile.alike_failed h.alike fault t t') fun _ _ _ => .done _
  · exact .done _

theorem adopt (h : Reads L m m') :
    Twins timeout L (act ctx (Reconcile.adopt m m.instanceName)) (act ctx' (Reconcile.adopt m' m'.instanceName)) := by
  rw [Reconcile.adopt_concluded, Reconcile.adopt_concluded]
  refine look fun t t' => ?_
  have hsame : ∀ t t', Reconcile.adoptedStatus m m.instanceName t = m.status ↔
      Reconcile.adoptedStatus m' m'.instanceName t' = m'.status := by
    intro t t'
    rw [Reconcile.adoptedStatus_eq_iff, Reconcile.adoptedStatus_eq_iff]
    exact Reconcile.upToDate_iff h.alike
  simp only [hsame t t']
  split
  · exact .done _
  · refine .updateStatus h.key ?_ (Reconcile.alike_adopted h.alike t t') fun x x' hx => concluded hx .never
    exact (Object.instanceName_record m _).trans h.name

theorem addMarker (h : Reads L m m') :
    Twins timeout L (act ctx (Reconcile.addMarker m)) (act ctx' (Reconcile.addMarker m')) := by
  rw [Reconcile.addMarker_eq, Reconcile.addMarker_eq]
  have hk : (m.addMarker machineMarker).1.key = L.key := by
    rw [← h.key]
    unfold Object.addMarker
    split <;> rfl
  refine .update hk (h.alike.addMarker machineMarker) fun x x' hx => ?_
  cases hx with
  | error fault => exact .done _
  | ok _ _ => exact .done _

theorem removeMarker (h : Reads L m m') :
    Twins timeout L (act ctx (Reconcile.removeMarker m)) (act ctx' (Reconcile.removeMarker m')) := by
  rw [Reconcile.removeMarker_eq, Reconcile.removeMarker_eq, (h.alike.removeMarker machineMarker).2]
  split
  · refine .update h.key (h.alike.removeMarker machineMarker).1 fun x x' hx => ?_
    cases hx with
    | error fault => exact .done _
    | ok _ _ => exact .done _
  · exact .done _

theorem create (h : Reads L m m') :
    Twins timeout L (act ctx (Reconcile.create m (.ofSpec m.instanceName m.spec)))
      (act ctx' (Reconcile.create m' (.ofSpec m'.instanceName m'.spec))) := by
  have hname : ∀ x, some m.instanceName = some x → x = L.name := fun _ hx => (Option.some.inj hx).symm.trans h.name
  have hrequest : InstanceRequest.ofSpec m'.instanceName m'.spec = .ofSpec m.instanceName m.spec := by
    rw [h.alike.instanceName, h.alike.spec]
  rw [hrequest, Reconcile.create_eq, Reconcile.create_eq]
  refine backend hname fun x => ?_
  cases x with
  | error fault => exact fail h _
  | ok _ =>
    refine backend hname fun x => ?_
    match x with
    | .error fault => exact fail h _
    | .ok false => exact fail h _
    | .ok true =>
      show Twins timeout L (act ctx (Reconcile.adopt m m.instanceName)) (act ctx' (Reconcile.adopt m' m.instanceName))
      rw [show Reconcile.adopt m' m.instanceName = Reconcile.adopt m' m'.instanceName by rw [h.alike.instanceName]]
      exact adopt h

theorem delete (h : Reads L m m') :
    Twins timeout L (act ctx (Reconcile.delete m m.instanceName)) (act ctx' (Reconcile.delete m' m'.instanceName)) := by
  have hname : ∀ x, some m.instanceName = some x → x = L.name := fun _ hx => (Option.some.inj hx).symm.trans h.name
  rw [← h.alike.instanceName, Reconcile.delete_eq, Reconcile.delete_eq]
  refine backend hname fun x => ?_
  cases x with
  | error fault => exact fail h _
  | ok _ =>
    refine backend hname fun x => ?_
    match x with
    | .error fault => exact fail h _
    | .ok true => exact fail h _
    | .ok false => exact removeMarker h

theorem takeStep (h : Reads L m m') {pending pending' : Pending}
    (hp : pending = if m.metadata.deletionRequested then .deleting m.instanceName else .live m.instanceName)
    (hp' : pending' = if m'.metadata.deletionRequested then .deleting m'.instanceName else .live m'.instanceName)
    (there : Bool) :
    Twins timeout L (act ctx (Reconcile.takeStep m (Step.of m pending there)))
      (act ctx' (Reconcile.takeStep m' (Step.of m' pending' there))) := by
  rw [← h.alike.metadata] at hp'
  cases hd : m.metadata.deletionRequested with
  | true =>
    rw [hd, if_pos rfl] at hp hp'
    rw [hp, hp']
    cases there with
    | true => exact delete h
    | false => exact removeMarker h
  | false =>
    rw [hd, if_neg Bool.false_ne_true] at hp hp'
    rw [hp, hp']
    cases there with
    | true => exact adopt h
    | false => exact create h

theorem afterRead (h : Reads L m m') :
    Twins timeout L (act ctx (Reconcile.afterRead m)) (act ctx' (Reconcile.afterRead m')) := by
  have hdecision : Decision.of m' = Decision.of m := by
    unfold Decision.of
    rw [h.alike.metadata, h.alike.hasMarker, h.alike.instanceName]
  unfold Reconcile.afterRead
  rw [hdecision]
  cases hof : Decision.of m with
  | done => exact .done _
  | addMarker => exact addMarker h
  | observe pending =>
    have hp := (Decision.of_eq_observe_iff.mp hof).2
    have hp' := (Decision.of_eq_observe_iff.mp (hdecision.trans hof)).2
    have hname : pending.instanceName = L.name := (Decision.instanceName_of_observe hof).trans h.name
    show Twins timeout L (act ctx (Reconcile.observe m pending)) (act ctx' (Reconcile.observe m' pending))
    rw [Reconcile.observe_eq, Reconcile.observe_eq]
    refine backend (fun _ hx => by cases hx) fun x => ?_
    cases x with
    | error fault => exact fail h _
    | ok _ =>
      refine backend (fun _ hx => (Option.some.inj hx).symm.trans hname) fun x => ?_
      cases x with
      | error fault => exact fail h _
      | ok there => exact takeStep h hp hp' there

theorem machine : Twins timeout L (act ctx (Reconcile.machine L.key)) (act ctx' (Reconcile.machine L.key)) := by
  rw [Reconcile.machine_eq_onRead]
  refine .get fun o o' halike hkeeps => ?_
  show Twins timeout L (act ctx (Reconcile.onRead (.ok o))) (act ctx' (Reconcile.onRead (.ok o')))
  rcases Alike.cases_of_map_eq halike with ⟨rfl, rfl⟩ | ⟨m, m', rfl, rfl, hm⟩
  · exact .done _
  · obtain ⟨hk, hn⟩ := hkeeps m rfl
    exact afterRead ⟨hm, hk, hn⟩

/-! ## A sync -/

theorem attempt {ctx : Context} {again : SyncPlan Attempt} (h : Twins timeout L (again.via syncing) (again.via syncing)) :
    Twins timeout L ((Sync.attempt ctx timeout L.key again).via syncing)
      ((Sync.attempt ctx timeout L.key again).via syncing) := by
  rw [attempt_eq]
  refine .clock fun t t' hfits => ?_
  by_cases ht : Fits timeout t
  · have ht' := hfits.mp ht
    unfold Fits at ht ht'
    simp only [Context.withTimeout?, Deadline.after?, if_pos ht, if_pos ht', Option.map_some]
    refine machine.bind fun r => ?_
    rcases r with fault | requeue
    · exact .done _
    · cases requeue with
      | immediate => exact h
      | _ => exact .done _
  · have ht' := fun hfit => ht (hfits.mpr hfit)
    unfold Fits at ht ht'
    simp only [Context.withTimeout?, Deadline.after?, if_neg ht, if_neg ht', Option.map_none]
    exact .done _

theorem attempts (ctx : Context) (n : Nat) :
    Twins timeout L ((Sync.attempts ctx timeout L.key n).via syncing)
      ((Sync.attempts ctx timeout L.key n).via syncing) := by
  induction n with
  | zero => exact attempt (.done _)
  | succ n ih => exact attempt (.interruption ctx ctx ih)

end Twins

theorem twins_sync (config : WorkerConfig) (ctx : Context) (L : Lane) :
    Twins config.timeout L (syncAct (keeper .simulated .machine) config ctx L.key)
      (syncAct (keeper .simulated .machine) config ctx L.key) :=
  Twins.attempts ctx config.maxRequeues

/-! ## In time -/

/-- The call is made in time: its context is not done, and an attempt has a deadline if one had at the start. -/
def InTime (timeout : Nat) (start w : World) : World.Call → Prop
  | .clock => Fits timeout w.now ↔ Fits timeout start.now
  | .interruption ctx | .simulated ctx _ => w.interruption ctx = none
  | _ => True

/-- Where the clock stands still, no context is done that the plan asks about or makes a call under. -/
def Prompt {α : Type} (w : World) : Act α → Prop
  | .done _ => True
  | .call .clock n => Prompt w (n w.now)
  | .call (.interruption ctx) n => w.interruption ctx = none ∧ Prompt w (n none)
  | .call (.simulated ctx _) n => w.interruption ctx = none ∧ ∀ x, Prompt w (n x)
  | .call _ n => ∀ x, Prompt w (n x)

section

variable {w : World} {ctx : Context}

theorem prompt_act (hctx : w.interruption ctx = none) (p : MachinePlan) : Prompt w (act ctx p) := by
  induction p with
  | done r => trivial
  | call c next ih =>
    cases c with
    | store c => exact ih
    | backend c => exact ⟨hctx, ih⟩
    | wallClock => exact ih

theorem prompt_bind {α β : Type} {p : Act α} {f : α → Act β} (h : Prompt w p) (hf : ∀ a, Prompt w (f a)) :
    Prompt w (p.bind f) := by
  induction p with
  | done a => exact hf a
  | call c next ih =>
    cases c with
    | clock => exact ih _ h
    | interruption ctx => exact ⟨h.1, ih _ h.2⟩
    | simulated ctx c => exact ⟨h.1, fun x => ih x (h.2 x)⟩
    | wallClock | store | session | visit | pause | cancel => exact fun x => ih x (h x)

theorem prompt_attempt {timeout : Nat} {key : Key} {again : SyncPlan Attempt} (hctx : w.interruption ctx = none)
    (htimeout : 0 < timeout) (h : Prompt w (again.via syncing)) :
    Prompt w ((Sync.attempt ctx timeout key again).via syncing) := by
  rw [attempt_eq]
  rw [Prompt]
  unfold Context.withTimeout? Deadline.after?
  split
  · trivial
  · rename_i child hchild
    have hopen : w.interruption child = none := by
      split at hchild
      · cases hchild
        exact interruption_expiringAt hctx htimeout
      · cases hchild
    refine prompt_bind (prompt_act hopen _) fun r => ?_
    rcases r with fault | requeue
    · trivial
    · cases requeue with
      | immediate => exact h
      | _ => trivial

theorem prompt_sync {config : WorkerConfig} (hctx : w.interruption ctx = none) (htimeout : 0 < config.timeout)
    (key : Key) : Prompt w (syncAct (keeper .simulated .machine) config ctx key) := by
  rw [syncAct_eq, Sync.plan]
  induction config.maxRequeues with
  | zero => exact prompt_attempt hctx htimeout trivial
  | succ n ih => exact prompt_attempt hctx htimeout ⟨hctx, ih⟩

end

end MachineKeeper.Rehearsal
