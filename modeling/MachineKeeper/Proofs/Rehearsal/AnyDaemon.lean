/-
  MachineKeeper.Proofs.Rehearsal.AnyDaemon — a reconcile against a daemon that does as it likes.

  A script of routes fixes beforehand what a daemon does. Here the daemon may write a new script
  before every call, knowing the call and all that has happened so far (`Conduct`), so each
  request may be answered with anything after any delay, dropped, or never answered.

  What keeps such a daemon in check is the context alone. Every request of a session is made
  under it and every wait is for an answer to one: the right to open the session is asked for
  only where nobody has it, and given back. That is a property of plans (`Orderly`), put together
  call by call, and whatever has it heeds the context, in any world.

  Proved:
  - `playUnder_scripted`: a daemon that keeps to its script is one of these.
  - `requests_playUnder`: the requests that are counted are all that the daemon gets.
  - `Orderly.heeds`: an orderly plan sends nothing once its context is done, and ends by then.
  - `heeds_context`: so does every reconcile of a machine and every backend call by itself.
-/

import MachineKeeper.Proofs.Clock.Await
import MachineKeeper.Proofs.Rehearsal.Frame
import MachineKeeper.Proofs.Store.Life
import MachineKeeper.Rehearsal.Keeper

namespace MachineKeeper.Rehearsal

open Daemon (Endpoint Reply Request SessionCall SessionPlan)

variable {α β : Type} {limit : Instant} {ctx : Context}

/-! ## Any daemon -/

/-- The script that the daemon has when a call is made. -/
abbrev Conduct := World.Call → World → List Route

def LogEntry.request? : LogEntry → Option Request
  | .daemon q => some q
  | .backend _ => none

/-- What the daemon was asked. -/
def World.requests (w : World) : List Request := w.log.filterMap LogEntry.request?

/-- What it has been asked since, and when. -/
def World.sentSince (old w : World) : List (Instant × Request) :=
  (w.requests.drop old.requests.length).map fun q => (w.now, q)

structure Played (α : Type) where
  sent : List (Instant × Request)
  /-- What the plan comes to, if it ends by the limit. -/
  result : Option α
  world : World

def Played.after (sent : List (Instant × Request)) (p : Played α) : Played α := { p with sent := sent ++ p.sent }

/-- Carries out a plan alone, against a daemon of that conduct. -/
def playUnder (conduct : Conduct) (limit : Instant) : Act α → World → Played α
  | .done a, w => ⟨[], some a, w⟩
  | .call c next, w =>
    match World.perform c { w with routes := conduct c w } with
    | (.atOnce a, w') => (playUnder conduct limit (next a) w').after (w.sentSince w')
    | (.waiting ctx ready answer, w') =>
      match ctx.await w'.signals w'.now ready with
      | none => ⟨w.sentSince w', none, w'.abandon limit⟩
      | some (t, result) =>
        if t ≤ limit then (playUnder conduct limit (next (answer result)) { w' with now := t }).after (w.sentSince w')
        else ⟨w.sentSince w', none, w'.abandon limit⟩
    | (.queued _, w') => ⟨w.sentSince w', none, w'.abandon limit⟩

/-- A daemon that leaves its script as it is. -/
theorem playUnder_scripted (p : Act α) (w : World) :
    let played := playUnder (fun _ w => w.routes) limit p w
    (played.result, played.world) = play limit p w := by
  induction p generalizing w with
  | done a => rfl
  | call c next ih =>
    rw [playUnder, play]
    cases w.perform c with
    | mk response w' =>
      cases response with
      | atOnce a => exact ih a w'
      | waiting ctx ready answer =>
        dsimp only
        cases ctx.await w'.signals w'.now ready with
        | none => rfl
        | some woken =>
          dsimp only
          split
          · exact ih _ _
          · rfl
      | queued a => rfl

/-- Any request can be answered with anything, at any time. -/
theorem receive_single (now : Instant) (q : Request) (r : Route) (hr : r.method = q.method.text) (hpath : r.path = q.path)
    (huses : r.uses ≠ some 0) : (receive now q [r]).2 = r.arrival now := by
  have hfits : r.fits q = true := by simp [Route.fits, hr, hpath, huses]
  rw [receive, if_pos hfits]

theorem requests_perform (c : World.Call) (w : World) (routes : List Route) {w' : World} {response : World.Response c.Answer}
    (h : World.perform c { w with routes := routes } = (response, w')) :
    w'.requests = w.requests ++ (w.sentSince w').map (·.2) := by
  obtain ⟨entries, hlog, -⟩ := logs_perform c { w with routes := routes }
  rw [h] at hlog
  have hrequests : w'.requests = w.requests ++ entries.filterMap LogEntry.request? := by
    rw [World.requests, hlog, List.filterMap_append]
    rfl
  rw [World.sentSince, hrequests, List.drop_left, List.map_map]
  exact congrArg _ (List.map_id' _).symm

/-- The requests that are counted are all there are. -/
theorem requests_playUnder (conduct : Conduct) (p : Act α) (w : World) :
    (playUnder conduct limit p w).world.requests = w.requests ++ (playUnder conduct limit p w).sent.map (·.2) := by
  induction p generalizing w with
  | done a => simp [playUnder]
  | call c next ih =>
    rw [playUnder]
    cases hperform : World.perform c { w with routes := conduct c w } with
    | mk response w' =>
      have hsent := requests_perform c w (conduct c w) hperform
      cases response with
      | atOnce a =>
        simp only [Played.after, List.map_append, ih a w', hsent, List.append_assoc]
      | waiting ctx ready answer =>
        dsimp only
        cases ctx.await w'.signals w'.now ready with
        | none => exact hsent
        | some woken =>
          dsimp only
          split
          · have hrest := ih (answer woken.2) { w' with now := woken.1 }
            simp only [Played.after, List.map_append, hrest]
            rw [← List.append_assoc, ← hsent]
            rfl
          · exact hsent
      | queued a => exact hsent

/-! ## Orderly plans -/

/-- What it waits for is the answer to a request under the context. It asks for the right to open
the session only when nobody has it; the first flag says whether it has that right to begin with,
the second whether it has it in the end. -/
inductive Orderly (ctx : Context) : Bool → Bool → Act α → Prop where
  | done {b : Bool} (a : α) : Orderly ctx b b (.done a)
  | aside {b b' : Bool} {c : World.Call} {next : c.Answer → Act α}
      (hc : ∀ w : World, ∃ a w', w.perform c = (.atOnce a, w') ∧ Aside w w')
      (h : ∀ a, Orderly ctx b b' (next a)) : Orderly ctx b b' (.call c next)
  | exchange {b b' : Bool} {q : Request} {next : Except Interruption Daemon.Exchange → Act α}
      (h : ∀ a, Orderly ctx b b' (next a)) : Orderly ctx b b' (.call (.session ctx (.exchange q)) next)
  | enter {b' : Bool} {next : Unit → Act α} (h : Orderly ctx true b' (next ())) :
      Orderly ctx false b' (.call (.session ctx .enter) next)
  | leave {b b' opened : Bool} {next : Unit → Act α} (h : Orderly ctx false b' (next ())) :
      Orderly ctx b b' (.call (.session ctx (.leave opened)) next)

namespace Orderly

variable {b b' b'' : Bool}

theorem bind {p : Act α} {f : α → Act β} (h : Orderly ctx b b' p) (hf : ∀ a, Orderly ctx b' b'' (f a)) :
    Orderly ctx b b'' (p.bind f) := by
  induction h with
  | done a => exact hf a
  | aside hc _ ih => exact .aside hc fun a => ih a hf
  | exchange _ ih => exact .exchange fun a => ih a hf
  | enter _ ih => exact .enter (ih hf)
  | leave _ ih => exact .leave (ih hf)

/-- A plan of other calls, each of which is answered in an orderly way. -/
theorem via {C : Type} {A : C → Type} {answer : (c : C) → Act (A c)} (hanswer : ∀ c, Orderly ctx b b (answer c))
    (p : Plan A α) : Orderly ctx b b (p.via answer) := by
  induction p with
  | done a => exact .done a
  | call c next ih => exact (hanswer c).bind ih

end Orderly

/-! ## Sessions -/

/-- The same of a plan of a session, carried out under the context. -/
def OrderlySession (ctx : Context) (b b' : Bool) (p : SessionPlan α) : Prop := Orderly ctx b b' (sessionAct ctx p)

namespace OrderlySession

variable {b b' b'' : Bool}

theorem done (a : α) : OrderlySession ctx b b (.done a) := Orderly.done a

theorem bind {p : SessionPlan α} {f : α → SessionPlan β} (h : OrderlySession ctx b b' p)
    (hf : ∀ a, OrderlySession ctx b' b'' (f a)) : OrderlySession ctx b b'' (p.bind f) := by
  unfold OrderlySession sessionAct
  rw [Plan.via_bind]
  exact Orderly.bind h hf

theorem interruption : OrderlySession ctx b b (Daemon.Session.ask .interruption) :=
  Orderly.aside (fun w => ⟨_, w, rfl, .refl w⟩) Orderly.done

theorem connected : OrderlySession ctx b b (Daemon.Session.ask .connected) :=
  Orderly.aside (fun w => ⟨_, w, rfl, .refl w⟩) Orderly.done

theorem socketPresent : OrderlySession ctx b b (Daemon.Session.ask .socketPresent) :=
  Orderly.aside (fun w => ⟨_, w, rfl, .refl w⟩) Orderly.done

theorem forget : OrderlySession ctx b b (Daemon.Session.ask .forget) :=
  Orderly.aside (fun _ => ⟨_, _, rfl, ⟨rfl, rfl, rfl, rfl, rfl⟩⟩) Orderly.done

theorem exchange (q : Request) : OrderlySession ctx b b (Daemon.Session.ask (.exchange q)) :=
  Orderly.exchange Orderly.done

theorem enter : OrderlySession ctx false true (Daemon.Session.ask .enter) := Orderly.enter (Orderly.done ())

theorem leave (opened : Bool) : OrderlySession ctx b false (Daemon.Session.ask (.leave opened)) :=
  Orderly.leave (Orderly.done ())

theorem run (e : Endpoint α) : OrderlySession ctx b b (Daemon.Session.run e) := by
  refine interruption.bind fun why => ?_
  cases why with
  | some why => exact done _
  | none =>
    cases e.request with
    | error fault => exact done _
    | ok q =>
      refine (exchange q).bind fun answer => ?_
      cases answer with
      | error why => exact done _
      | ok answer => exact done _

theorem stage {e : Endpoint α} {blame : String → BackendFault} {next : α → SessionPlan (Except BackendFault β)}
    (h : ∀ a, OrderlySession ctx b b (next a)) : OrderlySession ctx b b (Daemon.Session.stage e blame next) := by
  refine (run e).bind fun answer => ?_
  rcases answer with why | fault | a
  · exact done _
  · exact done _
  · exact h a

theorem shake (path : String) : OrderlySession ctx b b (Daemon.Session.shake path) := by
  refine socketPresent.bind fun present => ?_
  cases present with
  | true => exact stage fun _ => done _
  | false => exact done _

/-- The right to open the session is given back however the handshake ends. -/
theorem connect (path : String) : OrderlySession ctx false false (Daemon.Session.connect path) := by
  refine connected.bind fun there => ?_
  cases there with
  | true => exact done _
  | false =>
    refine enter.bind fun _ => connected.bind fun there => ?_
    cases there with
    | true => exact (leave true).bind fun _ => done _
    | false => exact (shake path).bind fun result => (leave result.isOk).bind fun _ => done _

theorem within {path : String} {p : SessionPlan (Except BackendFault β)} (h : OrderlySession ctx false false p) :
    OrderlySession ctx false false (Daemon.Session.within path p) := by
  refine (connect path).bind fun result => ?_
  cases result with
  | error fault => exact done _
  | ok => exact h

theorem create (r : InstanceRequest) : OrderlySession ctx b b (Daemon.Session.create r) := by
  unfold Daemon.Session.create
  exact stage fun _ => stage fun _ => done _

theorem delete (name : String) : OrderlySession ctx b b (Daemon.Session.delete name) := by
  unfold Daemon.Session.delete
  refine stage fun state => ?_
  split
  · exact stage fun _ => stage fun _ => done _
  · exact stage fun _ => stage fun _ => stage fun _ => stage fun _ => done _

theorem exist (name : String) : OrderlySession ctx b b (Daemon.Session.exist name) := by
  refine (run _).bind fun answer => ?_
  rcases answer with why | fault | a
  · exact done _
  · dsimp only
    split <;> exact done _
  · exact done _

theorem plan (path : String) (c : BackendCall) : OrderlySession ctx false false (Daemon.Session.plan path c) := by
  cases c with
  | connect => exact connect path
  | create r => exact within (create r)
  | delete name => exact within (delete name)
  | exist name => exact within (exist name)
  | close => exact forget.bind fun _ => done _

end OrderlySession

theorem orderly_backendAct (path : String) (ctx : Context) (c : BackendCall) :
    Orderly ctx false false (backendAct (.daemon path) ctx c) :=
  OrderlySession.plan path c

theorem orderly_reconcileAct (path : String) (ctx : Context) (k : Kind) (key : Key) :
    Orderly ctx false false (reconcileAct (.daemon path) ctx k key) := by
  have hanswer : ∀ {k : Kind} (c : ReconcileCall k), Orderly ctx false false (answerAct (.daemon path) ctx c) := by
    intro k c
    cases c with
    | store c => exact .aside (fun w => ⟨_, _, rfl, aside_store c w⟩) fun a => .done a
    | backend c => exact orderly_backendAct path ctx c
    | wallClock => exact .aside (fun w => ⟨_, w, rfl, .refl w⟩) fun a => .done a
  cases k with
  | machine => exact .via hanswer (Reconcile.machine key)
  | cluster => exact .via hanswer (Reconcile.cluster key)

/-! ## Heeding the context -/

/-- Nothing is sent at an instant at which the context is done, and everything is over by the first
such instant. The signals are those of the world, with what is overdue made to them. -/
structure Heeds (ctx : Context) (limit : Instant) (w : World) (played : Played α) : Prop where
  silent : ∀ s ∈ played.sent, ctx.interruption w.caughtUp s.1 = none
  returns : ∀ t, w.now ≤ t → ctx.interruption w.caughtUp t ≠ none → t ≤ limit →
    ∃ a, played.result = some a ∧ played.world.now ≤ t

theorem sentSince_of_log {w w' : World} (h : w'.log = w.log) : w.sentSince w' = [] := by
  simp [World.sentSince, World.requests, h]

/-- A call that takes no time and sends nothing. -/
theorem Heeds.step {w w' : World} {played : Played α} (h : Heeds ctx limit w' played) (hnow : w'.now = w.now)
    (hcaught : w'.caughtUp = w.caughtUp) (hlog : w'.log = w.log) :
    Heeds ctx limit w (played.after (w.sentSince w')) := by
  rw [sentSince_of_log hlog]
  obtain ⟨hsilent, hreturns⟩ := h
  rw [hcaught] at hsilent hreturns
  rw [hnow] at hreturns
  exact ⟨hsilent, hreturns⟩

/-- A request is sent if the context is not done, and then it is waited for under the context. -/
theorem perform_exchange (ctx : Context) (q : Request) (w : World) (routes : List Route) :
    (∃ why w', World.perform (.session ctx (.exchange q)) { w with routes := routes } = (.atOnce (.error why), w') ∧
        w'.now = w.now ∧ w'.caughtUp = w.caughtUp ∧ w'.opening = w.opening ∧ w'.log = w.log) ∨
      ctx.interruption w.caughtUp w.now = none ∧ ∃ ready answer w',
        World.perform (.session ctx (.exchange q)) { w with routes := routes } = (.waiting ctx ready answer, w') ∧
          w'.now = w.now ∧ w'.signals = w.caughtUp ∧ w'.overdue = [] ∧ w'.opening = w.opening ∧
          w'.log = w.log ++ [.daemon q] := by
  have hsame : ({ w with routes := routes } : World).caughtUp = w.caughtUp := rfl
  simp only [World.perform, World.session, World.interruption, catchUp_signals, catchUp_now, hsame]
  cases ctx.interruption w.caughtUp w.now with
  | some why => exact .inl ⟨why, _, rfl, by simp [caughtUp_of_overdue, hsame]⟩
  | none => exact .inr ⟨rfl, _, _, _, rfl, by simp [World.record]⟩

theorem sentSince_of_request {w w' : World} {q : Request} (h : w'.log = w.log ++ [.daemon q]) :
    w.sentSince w' = [(w'.now, q)] := by
  have hrequests : w'.requests = w.requests ++ [q] := by
    rw [World.requests, h, List.filterMap_append]
    rfl
  rw [World.sentSince, hrequests, List.drop_left]
  rfl

/-- One exchange, with a plan behind it that heeds the context from wherever it goes on. -/
theorem heeds_exchange (conduct : Conduct) (limit : Instant) {q : Request}
    {next : Except Interruption Daemon.Exchange → Act α} {w : World} (hordered : ∀ s ∈ w.caughtUp, s.Ordered)
    (hnext : ∀ a (v : World), v.opening = w.opening → v.caughtUp = w.caughtUp →
      Heeds ctx limit v (playUnder conduct limit (next a) v)) :
    Heeds ctx limit w (playUnder conduct limit (.call (.session ctx (.exchange q)) next) w) := by
  rw [playUnder]
  rcases perform_exchange ctx q w (conduct (.session ctx (.exchange q)) w) with
    ⟨why, w', hperform, hnow, hcaught, hopening, hlog⟩ |
    ⟨hundone, ready, answer, w', hperform, hnow, hsignals, hoverdue, hopening, hlog⟩
  · rw [hperform]
    exact (hnext (.error why) w' hopening hcaught).step hnow hcaught hlog
  · have hfirst : ∀ s ∈ w.sentSince w', ctx.interruption w.caughtUp s.1 = none := by
      rw [sentSince_of_request hlog, List.forall_mem_singleton, hnow]
      exact hundone
    have hby : ∀ t, w.now ≤ t → ctx.interruption w.caughtUp t ≠ none →
        ∃ woken, ctx.await w.caughtUp w.now ready = some woken ∧ woken.1 ≤ t :=
      fun t ht hdone => Context.await_le hordered hundone ht hdone ready
    have hwait : ctx.await w'.signals w'.now ready = ctx.await w.caughtUp w.now ready := by rw [hsignals, hnow]
    rw [hperform]
    dsimp only
    rw [hwait]
    cases hawait : ctx.await w.caughtUp w.now ready with
    | none =>
      rw [hawait] at hby
      refine ⟨hfirst, fun t ht hdone hlimit => ?_⟩
      obtain ⟨woken, hwoken, -⟩ := hby t ht hdone
      cases hwoken
    | some woken =>
      -- what is left begins when the wait is over, with the same signals
      let v : World := { w' with now := woken.1 }
      have hcaught : v.caughtUp = w.caughtUp := (caughtUp_of_overdue (w := v) hoverdue).trans hsignals
      have hrest := hnext (answer woken.2) v hopening hcaught
      have hwoken : ∀ t, w.now ≤ t → ctx.interruption w.caughtUp t ≠ none → woken.1 ≤ t := by
        intro t ht hdone
        obtain ⟨woken', hwoken', hle⟩ := hby t ht hdone
        rw [hawait] at hwoken'
        cases hwoken'
        exact hle
      dsimp only
      split
      · refine ⟨List.forall_mem_append.mpr ⟨hfirst, ?_⟩, fun t ht hdone hlimit => ?_⟩
        · rw [← hcaught]
          exact hrest.silent
        · exact hrest.returns t (hwoken t ht hdone) (hcaught ▸ hdone) hlimit
      · next hlate =>
        exact ⟨hfirst, fun t ht hdone hlimit => absurd (Nat.le_trans (hwoken t ht hdone) hlimit) hlate⟩

theorem Orderly.heeds {b b' : Bool} {p : Act α} (h : Orderly ctx b b' p) (conduct : Conduct) (limit : Instant) {w : World}
    (hopening : w.opening = b) (hordered : ∀ s ∈ w.caughtUp, s.Ordered) :
    Heeds ctx limit w (playUnder conduct limit p w) := by
  induction h generalizing w with
  | done a =>
    refine ⟨fun s hs => ?_, fun t ht _ _ => ⟨a, rfl, ht⟩⟩
    cases hs
  | @aside b b' c next hc _ ih =>
    obtain ⟨a, w', hperform, haside⟩ := hc { w with routes := conduct c w }
    have hcaught : w'.caughtUp = w.caughtUp := haside.caughtUp
    rw [playUnder, hperform]
    exact (ih a (haside.opening.trans hopening) (hcaught ▸ hordered)).step haside.now hcaught haside.log
  | enter _ ih =>
    simp only [playUnder, World.perform, World.session, hopening, Bool.false_eq_true, if_false]
    refine Heeds.step (ih ?_ ?_) rfl rfl rfl
    · rfl
    · exact hordered
  | leave _ ih =>
    simp only [playUnder, World.perform, World.session]
    refine Heeds.step (ih ?_ ?_) rfl rfl rfl
    · rfl
    · exact hordered
  | exchange _ ih =>
    refine heeds_exchange conduct limit hordered fun a v hsame hcaught => ?_
    exact ih a (hsame.trans hopening) (hcaught ▸ hordered)

theorem ordered_caughtUp {w : World} (h : ∀ s ∈ w.signals, s.Ordered) : ∀ s ∈ w.caughtUp, s.Ordered := by
  have hfold : ∀ (changes : List (Nat × Signal.Change)) (signals : List Signal), (∀ s ∈ signals, s.Ordered) →
      ∀ s ∈ changes.foldl (fun signals c => signals.modify c.1 fun s => s.change w.now c.2) signals, s.Ordered := by
    intro changes
    induction changes with
    | nil => exact fun _ h => h
    | cons c changes ih =>
      refine fun signals h => ih _ fun s hs => ?_
      obtain ⟨i, hi⟩ := List.getElem?_of_mem hs
      rw [List.getElem?_modify] at hi
      obtain ⟨s', hs', rfl⟩ := Option.map_eq_some_iff.mp hi
      have hordered := h s' (List.mem_of_getElem? hs')
      split
      · exact hordered.change w.now c.2
      · exact hordered
  exact hfold w.overdue w.signals h

/-- Whatever the daemon does: a reconcile of a machine sends it nothing at an instant at which the
context is done, and is over by the first such instant; and so is each backend call by itself. -/
theorem heeds_context (conduct : Conduct) (limit : Instant) {w : World} (hopening : w.opening = false)
    (hordered : ∀ s ∈ w.signals, s.Ordered) (path : String) (ctx : Context) (key : Key) (c : BackendCall) :
    Heeds ctx limit w (playUnder conduct limit (reconcileAct (.daemon path) ctx .machine key) w) ∧
      Heeds ctx limit w (playUnder conduct limit (backendAct (.daemon path) ctx c) w) := by
  have hcaught := ordered_caughtUp hordered
  exact ⟨(orderly_reconcileAct path ctx .machine key).heeds conduct limit hopening hcaught,
    (orderly_backendAct path ctx c).heeds conduct limit hopening hcaught⟩

/-- It never answers. -/
def mute : Conduct
  | .session _ (.exchange q), _ => [⟨q.method.text, q.path, notFound, none, 0, .ignored⟩]
  | _, w => w.routes

/-- A marked machine is stored. -/
def oneMachine : World :=
  World.start someTime
    (Shelf.emptyMemory.after [⟨.machine, .create (newMachine ⟨"default", "w1"⟩ [machineMarker]), ⟨"u1", someTime⟩⟩])

theorem heeds_context_mute :
    ∃ a, (playUnder mute 100 (reconcileAct (.daemon "s") ⟨none, some 5⟩ .machine ⟨"default", "w1"⟩) oneMachine).result =
        some a ∧
      (playUnder mute 100 (reconcileAct (.daemon "s") ⟨none, some 5⟩ .machine ⟨"default", "w1"⟩) oneMachine).world.now ≤
        5 :=
  (heeds_context mute 100 (w := oneMachine) rfl (fun s hs => by cases hs) "s" ⟨none, some 5⟩ ⟨"default", "w1"⟩
    .connect).1.returns 5 (by decide) (by decide) (by decide)

end MachineKeeper.Rehearsal
