/-
  MachineKeeper.Proofs.Rehearsal.Absence — an instance is absent only where the daemon says so.

  What becomes of one look follows from what arrives for it and when (`World.arrival`): nothing is
  assumed of the daemon, so it may be any reply, a closed connection, or nothing ever. The
  context is looked at first, and at one instant it comes before the reply.

  From there the marker of a machine is followed back through the layers. A sync makes attempts,
  an attempt is a reconcile, its backend calls are sessions; a trace of the whole is taken apart
  again (`Leaves.of_via`), and the call that takes the marker off has a reconcile of its own with
  a look at its end (`Wary`).

  Proved:
  - `looked`: what comes of a look in an open session, for each arrival.
  - `denied_of_exist`, `denied_of_seen`: what the last exchange was where an instance is found
    absent.
  - `releasedOnDenial`: so the marker goes only after a 404 for that instance.
  - `absence_is_told`: both.
-/

import MachineKeeper.Proofs.Daemon.Look
import MachineKeeper.Proofs.Reconcile.Course
import MachineKeeper.Proofs.Rehearsal.AnyDaemon
import MachineKeeper.Proofs.Traces

namespace MachineKeeper.Rehearsal

open Reconcile (MachinePlan)
open Daemon (Exchange Reply Said SessionPlan SessionTrace lookUpRequest said validName)

variable {α : Type} {path name : String} {ctx : Context} {limit : Instant} {w : World}

/-! ## A look, in a world -/

/-- The context is done at that instant, be it because of a change that is overdue. -/
def World.DoneAt (w : World) (ctx : Context) (t : Instant) : Prop :=
  ctx.interruption w.caughtUp t ≠ none ∨ t = w.now ∧ w.interruption ctx ≠ none

/-- What has become of the request of a look. -/
def World.arrival (w : World) (name : String) : Arrival := (receive w.now (lookUpRequest name) w.routes).2

theorem le_receive {now : Instant} {q : Daemon.Request} {routes : List Route} {t : Instant}
    (h : (receive now q routes).2.time = some t) : now ≤ t := by
  induction routes with
  | nil =>
    cases h
    exact Nat.le_refl _
  | cons r rest ih =>
    unfold receive at h
    split at h
    · unfold Route.arrival at h
      split at h <;> cases h <;> exact Nat.le_add_right _ _
    · exact ih h

theorem play_within {p : SessionPlan (Except BackendFault α)} (hconnected : w.connected = true) :
    play limit (sessionAct ctx (Daemon.Session.within path p)) w = play limit (sessionAct ctx p) w := by
  rw [Daemon.Session.within_eq, Daemon.Session.connect_eq]
  show play limit (sessionAct ctx (Plan.bind (match w.connected with | true => _ | false => _) _)) w = _
  rw [hconnected]
  rfl

/-- A look in an open session, as it goes. -/
theorem play_exist (path : String) (ctx : Context) (limit : Instant) (hname : validName name = true)
    (hconnected : w.connected = true) :
    (play limit (backendAct (.daemon path) ctx (.exist name)) w).1 = match w.interruption ctx with
      | some why => some (.error (.interrupted why))
      | none => match ctx.interruption w.caughtUp w.now with
        | some why => some (.error (.interrupted why))
        | none => match ctx.await w.caughtUp w.now (w.arrival name).time with
          | none => none
          | some (t, result) => if t ≤ limit then some (match result with
              | .ok () => Daemon.Session.verdict name (w.arrival name).exchange
              | .error why => .error (.interrupted why)) else none := by
  have hact : backendAct (.daemon path) ctx (.exist name) =
      sessionAct ctx (Daemon.Session.within path (Daemon.Session.exist name)) := rfl
  rw [hact, play_within hconnected, Daemon.Session.exist_eq, Daemon.Endpoint.lookUp_request hname]
  show (play limit (sessionAct ctx (match w.interruption ctx with | some why => _ | none => _)) w).1 = _
  cases w.interruption ctx with
  | some why => rfl
  | none =>
    have hperform : World.perform (.session ctx (.exchange (lookUpRequest name))) w =
        match ctx.interruption w.caughtUp w.now with
        | some why => (.atOnce (.error why), { w with signals := w.caughtUp, overdue := [] })
        | none => (.waiting ctx (w.arrival name).time fun r => r.map fun () => (w.arrival name).exchange,
            { w with
              signals := w.caughtUp
              overdue := []
              routes := (receive w.now (lookUpRequest name) w.routes).1 }.record (.daemon (lookUpRequest name))) := by
      simp only [World.perform, World.session, catchUp_eq, World.interruption]
      rfl
    dsimp only
    rw [sessionAct, Plan.via]
    show (play limit (.call (.session ctx (.exchange (lookUpRequest name))) _) w).1 = _
    rw [play, hperform]
    cases ctx.interruption w.caughtUp w.now with
    | some why => rfl
    | none =>
      dsimp only [World.record]
      cases ctx.await w.caughtUp w.now (w.arrival name).time with
      | none => rfl
      | some woken =>
        obtain ⟨t, result⟩ := woken
        dsimp only
        split
        · cases result <;> rfl
        · rfl

/-- What becomes of a look for an instance. -/
structure Looked (name : String) (ctx : Context) (limit : Instant) (w : World)
    (result : Option (Except BackendFault Bool)) : Prop where
  /-- At one instant the context comes before the reply. -/
  interrupted : ∀ u, w.now ≤ u → u ≤ limit → w.DoneAt ctx u → (∀ t, (w.arrival name).time = some t → u ≤ t) →
    ∃ why, result = some (.error (.interrupted why))
  answered : ∀ t, (w.arrival name).time = some t → t ≤ limit → (∀ u, w.now ≤ u → u ≤ t → ¬w.DoneAt ctx u) →
    (result = some (.ok true) ↔ ∃ r e, (w.arrival name).exchange = .reply r ∧ r.Carries e) ∧
    (result = some (.ok false) ↔ ∃ r, (w.arrival name).exchange = .reply r ∧ r.Denies) ∧
    ((¬∃ r e, (w.arrival name).exchange = .reply r ∧ r.Carries e) → (¬∃ r, (w.arrival name).exchange = .reply r ∧ r.Denies) →
      ∃ reason, result = some (.error (.query name reason)))
  never : (w.arrival name).time = none → (∀ u, w.now ≤ u → ¬w.DoneAt ctx u) → result = none

theorem looked (hname : validName name = true) (hconnected : w.connected = true) (hordered : ∀ s ∈ w.signals, s.Ordered) :
    Looked name ctx limit w (play limit (backendAct (.daemon path) ctx (.exist name)) w).1 := by
  have hplay := play_exist path ctx limit hname hconnected
  generalize (play limit (backendAct (.daemon path) ctx (.exist name)) w).1 = result at hplay ⊢
  subst hplay
  have hlive : ∀ {u}, ¬w.DoneAt ctx u → ctx.interruption w.caughtUp u = none ∧ (u = w.now → w.interruption ctx = none) := by
    intro u hu
    simp only [World.DoneAt, not_or, not_and, Decidable.not_not] at hu
    exact hu
  constructor
  case interrupted =>
    intro u hnow hlimit hdone harrival
    cases hfirst : w.interruption ctx with
    | some why => exact ⟨why, rfl⟩
    | none =>
      cases hcaught : ctx.interruption w.caughtUp w.now with
      | some why => exact ⟨why, rfl⟩
      | none =>
        have hdone' : ctx.interruption w.caughtUp u ≠ none := hdone.resolve_right fun h => h.2 hfirst
        obtain ⟨v, hv, why, hawait⟩ := Context.await_interrupted (ordered_caughtUp hordered) hcaught hnow hdone' harrival
        simp only [hawait, if_pos (Nat.le_trans hv hlimit)]
        exact ⟨why, rfl⟩
  case answered =>
    intro t harrival hlimit hnot
    have hnow : w.now ≤ t := le_receive harrival
    obtain ⟨hcaught, hfirst⟩ := hlive (hnot w.now (Nat.le_refl _) hnow)
    have hawait : ctx.await w.caughtUp w.now (some t) = some (t, .ok ()) :=
      Context.await_ready (fun u hu hut => (hlive (hnot u hu hut)).1) hnow
    simp only [hfirst rfl, hcaught, harrival, hawait, if_pos hlimit]
    refine ⟨?_, ?_, fun hthere hgone => ?_⟩
    · rw [Option.some.injEq, Daemon.Session.verdict_eq_true_iff]
    · rw [Option.some.injEq, Daemon.Session.verdict_eq_false_iff]
    · obtain ⟨reason, hreason⟩ := Daemon.Session.verdict_eq_error name hthere hgone
      exact ⟨reason, congrArg some hreason⟩
  case never =>
    intro harrival hnot
    obtain ⟨hcaught, hfirst⟩ := hlive (hnot w.now (Nat.le_refl _))
    have hawait : ctx.await w.caughtUp w.now none = none := Context.await_never fun u hu => (hlive (hnot u hu)).1
    simp only [hfirst rfl, hcaught, harrival, hawait]

/-! ## What was said in a trace of the world -/

abbrev ActTrace := Trace World.Call.Answer

def exchanges (tr : ActTrace) : List Said := tr.filterMap fun
  | ⟨.session _ (.exchange q), x⟩ => some (q, x)
  | _ => none

theorem exchanges_append (tr tr' : ActTrace) : exchanges (tr ++ tr') = exchanges tr ++ exchanges tr' := List.filterMap_append

theorem leaves_ask {c : World.Call} {tr : ActTrace} {q : Act c.Answer} (h : (ask c).Leaves tr q) :
    tr = [] ∨ ∃ x, tr = [⟨c, x⟩] := by
  cases h with
  | here => exact .inl rfl
  | @call _ _ x _ _ h =>
    cases h
    exact .inr ⟨x, rfl⟩

theorem last_of_ask {c c' : World.Call} {x : c.Answer} {own : ActTrace} {q : Act c'.Answer}
    (h : (ask c').Leaves (own ++ [⟨c, x⟩]) q) : own = [] ∧ c' = c := by
  rcases leaves_ask h with hnil | ⟨y, htr⟩
  · simp at hnil
  · obtain ⟨rfl, hcall⟩ := (List.append_eq_singleton_iff.mp htr).resolve_right fun h => by simp at h
    exact ⟨rfl, (congrArg Sigma.fst (List.singleton_inj.mp hcall)).symm⟩

theorem leaves_sessionAct {p : SessionPlan α} {tr : ActTrace} {q : Act α} (h : (sessionAct ctx p).Leaves tr q) :
    ∃ (own : SessionTrace) (p' : SessionPlan α), p.Leaves own p' ∧ q = sessionAct ctx p' ∧
      tr = own.map fun e => ⟨.session ctx e.1, e.2⟩ := by
  induction p generalizing tr with
  | done a =>
    cases h
    exact ⟨[], .done a, .here _, rfl, rfl⟩
  | call c next ih =>
    cases h with
    | here => exact ⟨[], .call c next, .here _, rfl, rfl⟩
    | @call _ _ x tr _ h =>
      obtain ⟨own, p', hown, hq, rfl⟩ := ih x h
      exact ⟨⟨c, x⟩ :: own, p', .call hown, hq, rfl⟩

theorem exchanges_session (own : SessionTrace) :
    exchanges (own.map fun e => ⟨.session ctx e.1, e.2⟩) = said own := by
  rw [exchanges, List.filterMap_map, said]
  refine List.filterMap_congr fun e _ => ?_
  obtain ⟨c, x⟩ := e
  cases c <;> rfl

/-- An instance is absent only where the daemon has just said so. -/
theorem denied_of_exist {own : ActTrace} (h : (backendAct (.daemon path) ctx (.exist name)).Leaves own (.done (.ok false))) :
    ∃ r, (exchanges own).getLast? = some (lookUpRequest name, .ok (.reply r)) ∧ r.Denies := by
  obtain ⟨tr, p', hp', hdone, rfl⟩ := leaves_sessionAct h
  rw [exchanges_session]
  cases p' with
  | call c next => cases hdone
  | done result =>
    cases hdone
    exact Daemon.Session.denied_of_absent hp'

theorem denied_of_seen {tr : Trace (ReconcileCall.Answer (k := .machine))} {past : ActTrace} {m : Machine}
    (h : CarriedOut (answerAct (.daemon path) ctx) tr past) (hseen : Reconcile.Seen m false (Reconcile.talk tr)) :
    ∃ r, (exchanges past).getLast? = some (lookUpRequest m.instanceName, .ok (.reply r)) ∧ r.Denies := by
  induction h with
  | nil => cases hseen
  | @snoc tr past own c x _ hown ih =>
    have haside : exchanges own = [] → Reconcile.talk (tr ++ [⟨c, x⟩]) = Reconcile.talk tr →
        ∃ r, (exchanges (past ++ own)).getLast? = some (lookUpRequest m.instanceName, .ok (.reply r)) ∧ r.Denies := by
      intro hnothing htalk
      rw [htalk] at hseen
      rw [exchanges_append, hnothing, List.append_nil]
      exact ih hseen
    cases c with
    | store c =>
      refine haside ?_ (by simp [Reconcile.talk])
      rcases leaves_ask hown with rfl | ⟨y, rfl⟩ <;> rfl
    | wallClock =>
      refine haside ?_ (by simp [Reconcile.talk])
      rcases leaves_ask hown with rfl | ⟨y, rfl⟩ <;> rfl
    | backend c =>
      have htalk : Reconcile.talk (tr ++ [⟨.backend c, x⟩]) = Reconcile.talk tr ++ [⟨c, x⟩] := List.filterMap_append
      rw [Reconcile.Seen, htalk, List.getLast?_concat] at hseen
      cases hseen
      obtain ⟨r, hlast, hdenies⟩ := denied_of_exist hown
      refine ⟨r, ?_, hdenies⟩
      rw [exchanges_append, List.getLast?_append, hlast, Option.some_or]

/-! ## The marker of a machine -/

/-- The call may take the marker off the machine of that key, by what is stored. -/
def Releases (c : StoreCall .machine) (key : Key) : Prop :=
  ∃ (s : Memory .machine) (fresh : Fresh) (a : Machine), s.Filed ∧ s.get? key = some a ∧ a.hasMarker machineMarker ∧
    ∀ b, (s.perform fresh c).2.get? key = some b → ¬b.hasMarker machineMarker

theorem Releases.key {c : StoreCall .machine} {key : Key} (h : Releases c key) : c.key? = some key := by
  obtain ⟨s, fresh, a, hs, ha, hmark, hgone⟩ := h
  by_contra hc
  exact hgone a ((Memory.get?_perform_of_ne hs fresh c hc).trans ha) hmark

theorem Releases.update {c : StoreCall .machine} {key : Key} (h : Releases c key) :
    ∃ o, c = .update o ∧ ¬o.hasMarker machineMarker := by
  obtain ⟨s, fresh, a, hs, ha, hmark, hgone⟩ := h
  exact Memory.update_of_marker_gone hs ha hmark hgone

/-- All that the plan writes goes under that key. -/
def WritesUnder (key : Key) : MachinePlan → Prop
  | .done _ => True
  | .call (.store c) next => c.key? = some key ∧ ∀ x, WritesUnder key (next x)
  | .call (.backend _) next => ∀ x, WritesUnder key (next x)
  | .call .wallClock next => ∀ x, WritesUnder key (next x)

theorem WritesUnder.leaves {key : Key} {p q : MachinePlan} {tr : Trace (ReconcileCall.Answer (k := .machine))}
    (h : WritesUnder key p) (ht : p.Leaves tr q) : WritesUnder key q := by
  induction ht with
  | here p => exact h
  | @call c next x tr q _ ih =>
    cases c with
    | store c => exact ih (h.2 x)
    | backend c => exact ih (h x)
    | wallClock => exact ih (h x)

theorem writesUnder_concluded (key : Key) (requeue : Requeue) (x : Except StoreFault Machine) :
    WritesUnder key (Reconcile.concluded requeue x) := by
  cases x <;> exact trivial

theorem writesUnder_course {m : Machine} {heard : Reconcile.Heard} {p : MachinePlan} (h : Reconcile.Course m heard p) :
    WritesUnder m.key p := by
  induction h with
  | connect _ _ hfault hok | create _ _ _ hfault hok | delete _ _ _ hfault hok =>
    intro x
    cases x with
    | error fault => exact hfault fault
    | ok u => exact hok
  | look _ _ hfault hok | confirm _ _ hfault hok =>
    intro x
    cases x with
    | error fault => exact hfault fault
    | ok there => exact hok there
  | clock _ ih => exact ih
  | told _ _ _ => exact trivial
  | tell _ _ _ _ => exact ⟨rfl, fun _ => trivial⟩
  | settled _ _ _ => exact trivial
  | record _ _ _ _ => exact ⟨rfl, writesUnder_concluded _ _⟩
  | release _ _ => exact ⟨rfl, writesUnder_concluded _ _⟩

theorem writesUnder_afterRead (m : Machine) : WritesUnder m.key (Reconcile.afterRead m) := by
  rcases Reconcile.afterRead_cases m with ⟨-, -, h⟩ | ⟨-, -, h⟩ | ⟨-, h⟩
  · rw [h]
    exact trivial
  · rw [h]
    exact ⟨rfl, writesUnder_concluded _ _⟩
  · exact writesUnder_course h

/-! ## Reconciles and syncs -/

/-- A store call of a reconcile is made by itself, and nothing else makes one. -/
theorem stores_of_answer {k k' : Kind} {c' : ReconcileCall k} {c : StoreCall k'} {x : c.Answer} {own : ActTrace}
    {q : Act c'.Answer}
    (h : (answerAct (.daemon path) ctx c').Leaves (own ++ [⟨.store k' c, x⟩]) q) :
    own = [] ∧ ∃ c'' : StoreCall k, c' = .store c'' ∧ World.Call.store k c'' = .store k' c := by
  cases c' with
  | store c'' =>
    obtain ⟨hnil, hcall⟩ := last_of_ask h
    exact ⟨hnil, c'', rfl, hcall⟩
  | wallClock => cases (last_of_ask h).2
  | backend c'' =>
    obtain ⟨tr, p', -, -, htr⟩ := leaves_sessionAct h
    have hlast : (⟨.store k' c, x⟩ : (c : World.Call) × c.Answer) ∈ own ++ [⟨.store k' c, x⟩] := by simp
    rw [htr] at hlast
    obtain ⟨e, -, he⟩ := List.mem_map.mp hlast
    cases congrArg Sigma.fst he

theorem denied_of_reconcile {key key' : Key} {c : StoreCall .machine} {x : c.Answer} {before : ActTrace}
    {q : Act (Except ReconcileFault Requeue)} (hc : Releases c key')
    (h : (reconcileAct (.daemon path) ctx .machine key).Leaves (before ++ [⟨.store .machine c, x⟩]) q) :
    ∃ m r, before.head? = some ⟨.store .machine (.get key), .ok (some m)⟩ ∧ m.key = key' ∧
      (exchanges before).getLast? = some (lookUpRequest m.instanceName, .ok (.reply r)) ∧ r.Denies := by
  obtain ⟨o, rfl, hmark⟩ := hc.update
  obtain ⟨tr, c', next, past, own, rest, hleaves, hpast, rfl, hown⟩ := Plan.Leaves.of_via h
  obtain ⟨rfl, c'', rfl, hcall⟩ := stores_of_answer hown
  cases hcall
  rw [Reconcile.machine_eq_onRead] at hleaves
  cases hleaves with
  | @call _ _ answer tr _ hleaves =>
    obtain ⟨read, rest, rfl, hread, hrest⟩ := hpast.uncons
    match answer, hleaves with
    | .ok (some m), hleaves =>
      -- the reconcile has nothing to write but for the machine it has read
      have hwary := (Reconcile.wary_machine m).leaves hleaves
      have hseen : Reconcile.Seen m false (Reconcile.talk tr) := hwary.2.1 hmark
      have hkey : o.key = m.key := Option.some.inj ((writesUnder_afterRead m).leaves hleaves).1
      obtain ⟨r, hlast, hdenies⟩ := denied_of_seen hpast hseen
      refine ⟨m, r, ?_, ?_, ?_, hdenies⟩
      · cases hread with
        | call hread =>
          cases hread
          rfl
      · exact hkey.symm.trans (Option.some.inj hc.key)
      · rw [List.append_nil]
        exact hlast

/-- Where the marker is taken off a machine, the reconcile that does it has read that machine, and the last to be said in
it is that there is no such instance. -/
def ReleasedOnDenial (path : String) (tr : ActTrace) : Prop :=
  ∀ before c x after key, tr = before ++ ⟨.store .machine c, x⟩ :: after → Releases c key →
    ∃ past own ctx key' q m r, before = past ++ own ∧
      (reconcileAct (.daemon path) ctx .machine key').Leaves (own ++ [⟨.store .machine c, x⟩]) q ∧
      own.head? = some ⟨.store .machine (.get key'), .ok (some m)⟩ ∧ m.key = key ∧
      (exchanges own).getLast? = some (lookUpRequest m.instanceName, .ok (.reply r)) ∧ r.Denies

theorem releasedOnDenial {k : Kind} {config : WorkerConfig} {key : Key} {tr : ActTrace} {q : Act Attempt}
    (h : (syncAct (keeper (.daemon path) k) config ctx key).Leaves tr q) : ReleasedOnDenial path tr := by
  rintro before c x after key' rfl hc
  obtain ⟨tr, c', next, past, own, rest, -, -, rfl, hown⟩ := Plan.Leaves.of_via h
  cases c' with
  | clock => cases (last_of_ask hown).2
  | interruption ctx => cases (last_of_ask hown).2
  | reconcile child key'' =>
    have hreconcile : ∃ q, (reconcileAct (.daemon path) child k key'').Leaves (own ++ [⟨.store .machine c, x⟩]) q := by
      rcases Plan.Leaves.of_bind hown with ⟨p', hp', -⟩ | ⟨result, front, back, htr, hfront, hback⟩
      · exact ⟨p', hp'⟩
      · cases hback
        rw [htr, List.append_nil]
        exact ⟨_, hfront⟩
    obtain ⟨q, hq⟩ := hreconcile
    cases k with
    | machine =>
      obtain ⟨m, r, hhead, hkey, hlast, hdenies⟩ := denied_of_reconcile hc hq
      exact ⟨past, own, child, key'', q, m, r, rfl, hq, hhead, hkey, hlast, hdenies⟩
    | cluster =>
      obtain ⟨tr, c', next, past, own', rest, -, -, -, hown'⟩ := Plan.Leaves.of_via hq
      obtain ⟨-, c'', -, hcall⟩ := stores_of_answer hown'
      cases hcall

/-- A look for an instance is answered by what the daemon has said, and only a 404 makes it absent; all else is a failed
look, or an interrupted one. So whatever a sync is answered, from the start to wherever it stands, it takes the marker off
a machine only after such a 404 for its instance, the last to be said in that reconcile. -/
theorem absence_is_told (path : String) :
    (∀ name ctx limit w, validName name = true → w.connected = true → (∀ s ∈ w.signals, s.Ordered) →
      Looked name ctx limit w (play limit (backendAct (.daemon path) ctx (.exist name)) w).1) ∧
    ∀ k config ctx key tr q, (syncAct (keeper (.daemon path) k) config ctx key).Leaves tr q → ReleasedOnDenial path tr :=
  ⟨fun _ _ _ _ hname hconnected hordered => looked hname hconnected hordered, fun _ _ _ _ _ _ h => releasedOnDenial h⟩

/-! A run, with its trace. -/

/-- What a plan is answered that is carried out alone, and what is left of it. -/
def transcript (limit : Instant) : Act α → World → ActTrace × Act α
  | .done a, _ => ([], .done a)
  | .call c next, w =>
    match w.perform c with
    | (.atOnce x, w) =>
      let (tr, q) := transcript limit (next x) w
      (⟨c, x⟩ :: tr, q)
    | (.waiting ctx ready answer, w) =>
      match ctx.await w.signals w.now ready with
      | none => ([], .call c next)
      | some (t, result) =>
        if t ≤ limit then
          let (tr, q) := transcript limit (next (answer result)) { w with now := t }
          (⟨c, answer result⟩ :: tr, q)
        else ([], .call c next)
    | (.queued _, _) => ([], .call c next)

theorem leaves_transcript (limit : Instant) (p : Act α) (w : World) :
    p.Leaves (transcript limit p w).1 (transcript limit p w).2 := by
  induction p generalizing w with
  | done a => exact .here _
  | call c next ih =>
    rw [transcript]
    split
    · exact .call (ih _ _)
    · split
      · exact .here _
      · split
        · exact .call (ih _ _)
        · exact .here _
    · exact .here _

/-- A machine that is asked to go, and a daemon that knows nothing. -/
def departing : World :=
  let key : Key := ⟨"default", "w1"⟩
  { World.start someTime
      (Shelf.emptyMemory.after [⟨.machine, .create (newMachine key [machineMarker]), ⟨"u1", someTime⟩⟩,
        ⟨.machine, .delete key, ⟨"u2", someTime⟩⟩]) with connected := true }

def releasing : ActTrace × Act Attempt :=
  transcript 10 (syncAct (keeper (.daemon "") .machine) .standard .background ⟨"default", "w1"⟩) departing

/-- An update that leaves the marker out. -/
def withoutMarker : (c : World.Call) × c.Answer → Bool
  | ⟨.store .machine (.update o), _⟩ => !o.hasMarker machineMarker
  | _ => false

theorem absence_is_told_departing :
    Looked "w1" .background 10 departing (play 10 (backendAct (.daemon "") .background (.exist "w1")) departing).1 ∧
      releasing.1.any withoutMarker = true ∧ ReleasedOnDenial "" releasing.1 :=
  ⟨(absence_is_told "").1 "w1" .background 10 departing (by decide) rfl nofun, by decide +kernel,
    (absence_is_told "").2 .machine .standard .background ⟨"default", "w1"⟩ releasing.1 releasing.2
      (leaves_transcript 10 _ departing)⟩

end MachineKeeper.Rehearsal
