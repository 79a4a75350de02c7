/-
  MachineKeeper.Proofs.Rehearsal.Calm — a reconcile carried out with nothing in its way.

  The simulated backend has no faults, nobody else writes, and the context of the reconcile is
  not done. Then every call is answered at once, and what it does to the stored machine and to
  its instance is all there is to know about it (`Scene`): there is one rule for each call, from
  one scene to the next, and a reconcile is followed by these rules from its read to its result.

  Proved:
  - `ends_unmarked`: a live machine without the marker gets it, and is to be reconciled again.
  - `ends_live`: a live machine with the marker has its instance afterwards, and says so.
  - `ends_deleting`: the instance of a deleted machine is gone afterwards, and so is its marker.
  - `ends_idle`: in every other case nothing is done.
-/

import MachineKeeper.Proofs.Reconcile.Alone
import MachineKeeper.Proofs.Store.Life
import MachineKeeper.Rehearsal.Keeper

namespace MachineKeeper.Rehearsal

open Reconcile (MachinePlan foreignMarkers)

/-! ## Plans carried out to their end -/

section

variable {α β : Type} {limit : Instant} {w w' : World} {Q : α → World → Prop}

/-- Carried out alone, the plan comes to an end like that. -/
def Ends (limit : Instant) (p : Act α) (w : World) (Q : α → World → Prop) : Prop :=
  ∃ a w', play limit p w = (some a, w') ∧ Q a w'

theorem ends_done {a : α} (h : Q a w) : Ends limit (.done a) w Q := ⟨a, w, rfl, h⟩

theorem ends_call {c : World.Call} {a : c.Answer} {next : c.Answer → Act α} (hc : w.perform c = (.atOnce a, w'))
    (h : Ends limit (next a) w' Q) : Ends limit (.call c next) w Q := by
  obtain ⟨x, w'', hplay, hx⟩ := h
  refine ⟨x, w'', ?_, hx⟩
  rw [play, hc]
  exact hplay

theorem play_bind (p : Act α) (f : α → Act β) (w : World) :
    play limit (p.bind f) w = match play limit p w with
      | (some a, w') => play limit (f a) w'
      | (none, w') => (none, w') := by
  induction p generalizing w with
  | done a => rfl
  | call c next ih =>
    rw [Plan.call_bind, play, play]
    cases w.perform c with
    | mk response w' =>
      cases response with
      | atOnce a => exact ih a w'
      | waiting ctx ready answer =>
        dsimp only
        cases ctx.await w'.signals w'.now ready with
        | none => rfl
        | some woken =>
          dsimp only
          split
          · exact ih _ _
          · rfl
      | queued a => rfl

theorem ends_bind {p : Act α} {f : α → Act β} {Q : β → World → Prop}
    (h : Ends limit p w fun a w' => Ends limit (f a) w' Q) : Ends limit (p.bind f) w Q := by
  obtain ⟨a, w', hplay, b, w'', hplay', hb⟩ := h
  refine ⟨b, w'', ?_, hb⟩
  rw [play_bind, hplay]
  exact hplay'

theorem Ends.imp {p : Act α} {Q' : α → World → Prop} (h : Ends limit p w Q) (himp : ∀ a w', Q a w' → Q' a w') :
    Ends limit p w Q' := by
  obtain ⟨a, w', hplay, ha⟩ := h
  exact ⟨a, w', hplay, himp a w' ha⟩

end

/-! ## The acts of a reconcile -/

/-- A plan of a reconcile under a context, with the simulated backend. -/
abbrev act (ctx : Context) (p : MachinePlan) : Act (Except ReconcileFault Requeue) := p.via (answerAct .simulated ctx)

theorem ok_of_isOk {ε α : Type} {x : Except ε α} (h : x.isOk = true) : ∃ a, x = .ok a := by
  cases x with
  | error e => cases h
  | ok a => exact ⟨a, rfl⟩

/-! ## Scenes -/

/-- Nobody else is about to write. -/
structure Quiet (w : World) : Prop where
  onUpdate : w.onUpdate = []
  onStatusUpdate : w.onStatusUpdate = []
  holds : ∃ objects, w.shelf.Holds objects

namespace Quiet

variable {w : World}

theorem disturbed_eq (h : Quiet w) (c : StoreCall .machine) : w.disturbed .machine c = w := by
  cases c <;> simp only [World.disturbed, h.onUpdate, h.onStatusUpdate]

theorem countUid (h : Quiet w) (c : StoreCall .machine) (a : c.Answer) : Quiet (w.countUid c a) := by
  cases c with
  | create e =>
    cases a with
    | error fault => exact h
    | ok x => exact { h with }
  | _ => exact h

theorem store (h : Quiet w) (c : StoreCall .machine) : Quiet (w.store .machine c).2 := by
  obtain ⟨objects, hholds⟩ := h.holds
  have hnext : Quiet { w with shelf := w.shelf.next ⟨.machine, c, w.fresh⟩ } :=
    { h with holds := ⟨_, (hholds.perform ⟨.machine, c, w.fresh⟩).2⟩ }
  simp only [World.store, h.disturbed_eq]
  exact hnext.countUid c _

theorem store_eq (h : Quiet w) {c : StoreCall .machine} (hc : ∀ e, c ≠ .create e) : w.store .machine c =
    (w.shelf.answer ⟨.machine, c, w.fresh⟩, { w with shelf := w.shelf.next ⟨.machine, c, w.fresh⟩ }) := by
  have hcount : ∀ (a : c.Answer) (w : World), w.countUid c a = w := by
    cases c with
    | create e => exact absurd rfl (hc e)
    | _ => exact fun _ _ => rfl
  simp only [World.store, h.disturbed_eq, hcount]
  rfl

theorem perform_store (h : Quiet w) {c : StoreCall .machine} (hc : ∀ e, c ≠ .create e) :
    w.perform (.store .machine c) =
      (.atOnce (w.shelf.answer ⟨.machine, c, w.fresh⟩), { w with shelf := w.shelf.next ⟨.machine, c, w.fresh⟩ }) := by
  simp only [World.perform, h.store_eq hc]

theorem key_of_stored (h : Quiet w) {key : Key} {m : Machine} (hm : w.shelf.stored .machine key = some m) :
    m.key = key := by
  obtain ⟨objects, hholds⟩ := h.holds
  rw [hholds.stored] at hm
  exact hholds.filed .machine key m hm

end Quiet

/-- A world without faults and other writers, at the time of the first: what is stored under the
key, and whether the instance of that name is there. -/
structure Scene (start : World) (key : Key) (o : Option Machine) (name : String) (there : Bool) (w : World) : Prop
    extends Quiet w where
  now : w.now = start.now
  signals : w.signals = start.signals
  faults : w.simulated.faults = .none
  stored : w.shelf.stored .machine key = o
  there : w.simulated.contains name = there

namespace Scene

variable {limit : Instant} {ctx : Context} {start w : World} {key : Key} {m : Machine} {name : String} {there : Bool}
  {Q : Except ReconcileFault Requeue → World → Prop}

theorem uninterrupted {o : Option Machine} (h : Scene start key o name there w) (hctx : start.interruption ctx = none) :
    w.interruption ctx = none := by
  rw [World.interruption, h.now, h.signals]
  exact hctx

/-! ### Store calls -/

/-- What the call has done to the stored machine. -/
theorem store {o o' : Option Machine} (h : Scene start key o name there w) {c : StoreCall .machine} {fresh : Fresh}
    (ho' : (w.shelf.next ⟨.machine, c, fresh⟩).stored .machine key = o') :
    Scene start key o' name there { w with shelf := w.shelf.next ⟨.machine, c, fresh⟩ } := by
  obtain ⟨objects, hholds⟩ := h.holds
  exact { h with holds := ⟨_, (hholds.perform ⟨.machine, c, fresh⟩).2⟩, stored := ho' }

theorem get {o : Option Machine} (h : Scene start key o name there w)
    {next : Except StoreFault (Option Machine) → MachinePlan}
    (hnext : ∀ w', Scene start key o name there w' → Ends limit (act ctx (next (.ok o))) w' Q) :
    Ends limit (act ctx (.call (.store (.get key)) next)) w Q := by
  obtain ⟨objects, hholds⟩ := h.holds
  have hanswer : w.shelf.answer ⟨.machine, .get key, w.fresh⟩ = .ok o := by
    rw [(hholds.perform _).1, ← h.stored, hholds.stored]
    rfl
  have hstored := (Prod.mk.inj (hholds.effect (k := .machine) (.get key) w.fresh rfl)).2
  refine ends_call (h.perform_store fun _ hc => by cases hc) ?_
  rw [hanswer]
  exact hnext _ (h.store (hstored.trans h.stored))

theorem update {o : Machine} (h : Scene start key (some m) name there w) (hkey : o.key = key) (hv : m.Current o)
    {next : Except StoreFault Machine → MachinePlan}
    (hnext : ∀ x w', Scene start key (if (m.updated o).purgeable then none else some (m.updated o)) name there w' →
      Ends limit (act ctx (next (.ok x))) w' Q) :
    Ends limit (act ctx (.call (.store (.update o)) next)) w Q := by
  obtain ⟨objects, hholds⟩ := h.holds
  have heffect := hholds.effect (.update o) w.fresh (congrArg some hkey)
  rw [h.stored, StoreCall.effect, if_pos hv] at heffect
  obtain ⟨haccepts, hstored⟩ := Prod.mk.inj heffect
  obtain ⟨x, hx⟩ := ok_of_isOk haccepts
  refine ends_call (h.perform_store fun _ hc => by cases hc) ?_
  rw [hx]
  exact hnext x _ (h.store hstored)

theorem updateStatus {o : Machine} (h : Scene start key (some m) name there w) (hkey : o.key = key) (hv : m.Current o)
    {next : Except StoreFault Machine → MachinePlan}
    (hnext : ∀ x w', Scene start key (some (m.statusUpdated o)) name there w' →
      Ends limit (act ctx (next (.ok x))) w' Q) :
    Ends limit (act ctx (.call (.store (.updateStatus o)) next)) w Q := by
  obtain ⟨objects, hholds⟩ := h.holds
  have heffect := hholds.effect (.updateStatus o) w.fresh (congrArg some hkey)
  rw [h.stored, StoreCall.effect, if_pos hv] at heffect
  obtain ⟨haccepts, hstored⟩ := Prod.mk.inj heffect
  obtain ⟨x, hx⟩ := ok_of_isOk haccepts
  refine ends_call (h.perform_store fun _ hc => by cases hc) ?_
  rw [hx]
  exact hnext x _ (h.store hstored)

theorem wallClock {o : Option Machine} (h : Scene start key o name there w) {next : Timestamp → MachinePlan}
    (hnext : ∀ now w', Scene start key o name there w' → Ends limit (act ctx (next now)) w' Q) :
    Ends limit (act ctx (.call .wallClock next)) w Q :=
  ends_call rfl (hnext w.wall w h)

/-! ### Backend calls -/

variable {o : Option Machine}

/-- A backend call that the simulated backend answers like that. -/
theorem backend (h : Scene start key o name there w) (hctx : start.interruption ctx = none) {c : BackendCall}
    {x : c.Answer} {b : Simulated} (hc : w.simulated.perform none c = (x, b)) (hfaults : b.faults = .none) {there' : Bool}
    (hthere : b.contains name = there') {next : c.Answer → MachinePlan}
    (hnext : ∀ w', Scene start key o name there' w' → Ends limit (act ctx (next x)) w' Q) :
    Ends limit (act ctx (.call (.backend c) next)) w Q := by
  have hperform : w.perform (.simulated ctx c) =
      (.atOnce x, { w with simulated := b, log := w.log ++ [.backend c] }) := by
    simp only [World.perform, h.uninterrupted hctx, hc]
    rfl
  exact ends_call hperform (hnext _ { h with faults := hfaults, there := hthere })

theorem connect (h : Scene start key o name there w) (hctx : start.interruption ctx = none)
    {next : Except BackendFault Unit → MachinePlan}
    (hnext : ∀ w', Scene start key o name there w' → Ends limit (act ctx (next (.ok ()))) w' Q) :
    Ends limit (act ctx (.call (.backend .connect) next)) w Q := by
  refine h.backend hctx (b := { w.simulated with calls := w.simulated.calls ++ [.connect], connected := true }) ?_
    h.faults h.there hnext
  simp [Simulated.perform, Simulated.check, h.faults, Simulated.Faults.none]

theorem exist (h : Scene start key o name there w) (hctx : start.interruption ctx = none)
    {next : Except BackendFault Bool → MachinePlan}
    (hnext : ∀ w', Scene start key o name there w' → Ends limit (act ctx (next (.ok there))) w' Q) :
    Ends limit (act ctx (.call (.backend (.exist name)) next)) w Q := by
  refine h.backend hctx (b := { w.simulated with calls := w.simulated.calls ++ [.exist name], connected := true }) ?_
    h.faults h.there hnext
  rw [← h.there]
  simp [Simulated.perform, Simulated.check, Simulated.exist, h.faults, Simulated.Faults.none, Simulated.contains]

theorem createInstance {r : InstanceRequest} (h : Scene start key o r.name false w) (hctx : start.interruption ctx = none)
    {next : Except BackendFault Unit → MachinePlan}
    (hnext : ∀ w', Scene start key o r.name true w' → Ends limit (act ctx (next (.ok ()))) w' Q) :
    Ends limit (act ctx (.call (.backend (.create r)) next)) w Q := by
  refine h.backend hctx (b := { w.simulated with
    instances := w.simulated.instances.insert r.name r
    calls := w.simulated.calls ++ [.create r]
    connected := true }) ?_ h.faults ?_ hnext
  · have hthere := h.there
    simp only [Simulated.contains] at hthere
    simp [Simulated.perform, Simulated.check, Simulated.create, h.faults, Simulated.Faults.none, Simulated.contains, hthere]
  · simp [Simulated.contains, Catalog.contains, Catalog.get?_insert]

theorem deleteInstance (h : Scene start key o name true w) (hctx : start.interruption ctx = none)
    {next : Except BackendFault Unit → MachinePlan}
    (hnext : ∀ w', Scene start key o name false w' → Ends limit (act ctx (next (.ok ()))) w' Q) :
    Ends limit (act ctx (.call (.backend (.delete name)) next)) w Q := by
  refine h.backend hctx (b := { w.simulated with
    instances := w.simulated.instances.erase name
    calls := w.simulated.calls ++ [.delete name]
    connected := true }) ?_ h.faults ?_ hnext
  · have hthere := h.there
    simp only [Simulated.contains] at hthere
    simp [Simulated.perform, Simulated.check, Simulated.delete, h.faults, Simulated.Faults.none, Simulated.contains, hthere]
  · simp [Simulated.contains, Catalog.contains, Catalog.get?_erase]

/-! ## The parts of a reconcile -/

theorem addMarker (h : Scene start m.key (some m) name there w) (hd : ¬m.metadata.deletionRequested)
    (hmark : ¬m.hasMarker machineMarker) :
    Ends limit (act ctx (Reconcile.addMarker m)) w fun r w' => r = .ok .immediate ∧
      Scene start m.key (some (m.withMarkers (m.metadata.finalizers ++ [machineMarker]))) name there w' := by
  have hadd : (m.addMarker machineMarker).1 =
      { m with metadata.finalizers := m.metadata.finalizers ++ [machineMarker] } := by
    rw [Object.addMarker, if_neg hmark]
  have hstays : ¬(m.withMarkers (m.metadata.finalizers ++ [machineMarker])).purgeable :=
    fun h => hd (Object.purgeable_withMarkers_iff.mp h).1
  rw [Reconcile.addMarker_eq, hadd]
  refine h.update ?key ?current fun x w' h' => ?_
  case key => rfl
  case current => rfl
  rw [Object.updated_eq_withMarkers, if_neg hstays] at h'
  exact ends_done ⟨rfl, h'⟩

theorem removeMarker (h : Scene start m.key (some m) name there w) (hd : m.metadata.deletionRequested)
    (hmark : m.hasMarker machineMarker) :
    Ends limit (act ctx (Reconcile.removeMarker m)) w fun r w' => r = .ok .never ∧
      Scene start m.key (if foreignMarkers m = [] then none else some (m.withMarkers (foreignMarkers m))) name there
        w' := by
  have hremove : m.removeMarker machineMarker = ({ m with metadata.finalizers := foreignMarkers m }, true) := by
    simp [Object.removeMarker, foreignMarkers, Object.hasMarker_iff.mp hmark]
  rw [Reconcile.removeMarker_eq, hremove, if_pos rfl]
  refine h.update ?key ?current fun x w' h' => ?_
  case key => rfl
  case current => rfl
  rw [Object.updated_eq_withMarkers] at h'
  simp only [Object.purgeable_withMarkers_iff, hd, true_and] at h'
  exact ends_done ⟨rfl, h'⟩

end Scene

/-- The machine holds its marker and says that it has its instance. -/
structure Settled (m m' : Machine) : Prop where
  key : m'.key = m.key
  marker : m'.hasMarker machineMarker
  instanceId : m'.status.instanceId = m.instanceName
  ready : ∃ c, Condition.find? Reconcile.readyType m'.status.conditions = some c ∧ c.status = .yes ∧
    c.observedGeneration = m'.metadata.generation

theorem settled_adopted {m m' : Machine} {now : Timestamp} (hmark : m.hasMarker machineMarker) (hkey : m'.key = m.key)
    (hfinalizers : m'.metadata.finalizers = m.metadata.finalizers)
    (hgeneration : m'.metadata.generation = m.metadata.generation)
    (hstatus : m'.status = Reconcile.adoptedStatus m m.instanceName now) : Settled m m' where
  key := hkey
  marker := by rwa [Object.hasMarker, hfinalizers]
  instanceId := by rw [hstatus]; rfl
  ready := by
    obtain ⟨c, hc, hyes, hobserved, -⟩ :=
      Condition.find?_set (Reconcile.readyCondition m m.instanceName now) m.status.conditions
    refine ⟨c, ?_, hyes, hobserved.trans hgeneration.symm⟩
    rw [hstatus]
    exact hc

theorem Settled.instanceName {m m' : Machine} (h : Settled m m') : m'.instanceName = m.instanceName := by
  have hname : m'.metadata.name = m.metadata.name := congrArg Key.name h.key
  rw [Object.instanceName, h.instanceId, hname]
  split
  · rename_i hempty
    rw [Object.instanceName] at hempty ⊢
    split at hempty
    · rename_i hid
      rw [if_pos hid]
    · rename_i hid
      exact absurd hempty hid
  · rfl

namespace Scene

variable {limit : Instant} {ctx : Context} {start w : World} {m : Machine} {name : String} {there : Bool}

theorem adopt (h : Scene start m.key (some m) m.instanceName true w) (hmark : m.hasMarker machineMarker) :
    Ends limit (act ctx (Reconcile.adopt m m.instanceName)) w fun r w' => r = .ok .never ∧
      ∃ m', Settled m m' ∧ Scene start m.key (some m') m.instanceName true w' := by
  rw [Reconcile.adopt_eq]
  refine h.wallClock fun now w' h' => ?_
  by_cases hsame : Reconcile.adoptedStatus m m.instanceName now = m.status
  · rw [if_pos hsame]
    exact ends_done ⟨rfl, m, settled_adopted hmark rfl rfl rfl hsame.symm, h'⟩
  · rw [if_neg hsame]
    refine h'.updateStatus ?key ?current fun x w'' h'' => ?_
    case key => rfl
    case current => rfl
    refine ends_done ⟨rfl, _, ?_, h''⟩
    exact settled_adopted hmark rfl rfl rfl rfl

theorem create (h : Scene start m.key (some m) m.instanceName false w) (hctx : start.interruption ctx = none)
    (hmark : m.hasMarker machineMarker) :
    Ends limit (act ctx (Reconcile.create m (.ofSpec m.instanceName m.spec))) w fun r w' => r = .ok .never ∧
      ∃ m', Settled m m' ∧ Scene start m.key (some m') m.instanceName true w' := by
  rw [Reconcile.create_eq]
  exact createInstance h hctx fun w' h' => h'.exist hctx fun w'' h'' => h''.adopt hmark

theorem delete (h : Scene start m.key (some m) m.instanceName true w) (hctx : start.interruption ctx = none)
    (hd : m.metadata.deletionRequested) (hmark : m.hasMarker machineMarker) :
    Ends limit (act ctx (Reconcile.delete m m.instanceName)) w fun r w' => r = .ok .never ∧
      Scene start m.key (if foreignMarkers m = [] then none else some (m.withMarkers (foreignMarkers m)))
        m.instanceName false w' := by
  rw [Reconcile.delete_eq]
  exact deleteInstance h hctx fun w' h' => h'.exist hctx fun w'' h'' => h''.removeMarker hd hmark

/-! ## A reconcile -/

theorem ends_unmarked (h : Scene start m.key (some m) name there w) (hd : ¬m.metadata.deletionRequested)
    (hmark : ¬m.hasMarker machineMarker) :
    Ends limit (act ctx (Reconcile.machine m.key)) w fun r w' => r = .ok .immediate ∧
      Scene start m.key (some (m.withMarkers (m.metadata.finalizers ++ [machineMarker]))) name there w' := by
  rw [Reconcile.machine_eq]
  refine h.get fun w' h' => ?_
  simp only [Decision.of_eq_addMarker_iff.mpr ⟨hd, hmark⟩]
  exact h'.addMarker hd hmark

theorem ends_live (h : Scene start m.key (some m) m.instanceName there w) (hctx : start.interruption ctx = none)
    (hd : ¬m.metadata.deletionRequested) (hmark : m.hasMarker machineMarker) :
    Ends limit (act ctx (Reconcile.machine m.key)) w fun r w' => r = .ok .never ∧
      ∃ m', Settled m m' ∧ Scene start m.key (some m') m.instanceName true w' := by
  rw [Reconcile.machine_eq]
  refine h.get fun w' h' => ?_
  have hdecision : Decision.of m = .observe (.live m.instanceName) := by
    rw [Decision.of_eq_observe_iff, if_neg hd]
    exact ⟨hmark, rfl⟩
  simp only [hdecision, Reconcile.observe_eq]
  refine h'.connect hctx fun w' h' => h'.exist hctx fun w' h' => ?_
  cases there with
  | false => exact h'.create hctx hmark
  | true => exact h'.adopt hmark

theorem ends_deleting (h : Scene start m.key (some m) m.instanceName there w) (hctx : start.interruption ctx = none)
    (hd : m.metadata.deletionRequested) (hmark : m.hasMarker machineMarker) :
    Ends limit (act ctx (Reconcile.machine m.key)) w fun r w' => r = .ok .never ∧
      Scene start m.key (if foreignMarkers m = [] then none else some (m.withMarkers (foreignMarkers m)))
        m.instanceName false w' := by
  rw [Reconcile.machine_eq]
  refine h.get fun w' h' => ?_
  have hdecision : Decision.of m = .observe (.deleting m.instanceName) := by
    rw [Decision.of_eq_observe_iff, if_pos hd]
    exact ⟨hmark, rfl⟩
  simp only [hdecision, Reconcile.observe_eq]
  refine h'.connect hctx fun w' h' => h'.exist hctx fun w' h' => ?_
  cases there with
  | false => exact h'.removeMarker hd hmark
  | true => exact h'.delete hctx hd hmark

/-- A machine that is not stored, or whose marker is off for good. -/
theorem ends_idle {key : Key} {o : Option Machine} (h : Scene start key o name there w)
    (ho : ∀ m, o = some m → m.metadata.deletionRequested ∧ ¬m.hasMarker machineMarker) :
    Ends limit (act ctx (Reconcile.machine key)) w fun r w' => r = .ok .never ∧ Scene start key o name there w' := by
  rw [Reconcile.machine_eq]
  refine h.get fun w' h' => ?_
  cases o with
  | none => exact ends_done ⟨rfl, h'⟩
  | some m =>
    simp only [Decision.of_eq_done_iff.mpr (ho m rfl)]
    exact ends_done ⟨rfl, h'⟩

end Scene

end MachineKeeper.Rehearsal
