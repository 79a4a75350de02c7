/-
  MachineKeeper.Proofs.Rehearsal.Client — whether the session is open, over the life of a client.

  A client makes one call after the other: some open the session, some fail in it, a close ends
  it. What each call asks for is known from its stages; whether the session is open is known to
  the world. The two meet in the trace of a call (`Follows`): who asks whether the session is
  open is told so, and who opens it says whether that has worked.

  The daemon writes its script anew before every call of the session (`Answers`), so it may do
  as it likes, and a call need not have come to its end (`Lived`).

  Proved:
  - `connects`, `within_conducted`: a call, by whether the session is open before it.
  - `Gated.mistaken`: what else may look like a handshake.
  - `Client.connected_iff`: the session is open as long as the last handshake holds.
  - `session_states`: all of it, for any client at any time.
-/

import MachineKeeper.Proofs.Daemon.Look
import MachineKeeper.Proofs.Daemon.Operations
import MachineKeeper.Proofs.Rehearsal.AnyDaemon

namespace MachineKeeper.Daemon

variable {α β : Type} {b b' : Bool} {tr : SessionTrace} {path : String}

/-! ## Whether the session is open -/

/-- Whether the session is open after a call, if it was or was not before. -/
def SessionCall.leaves : SessionCall → Bool → Bool
  | .leave opened, _ => opened
  | .forget, _ => false
  | _, b => b

/-- Who asks whether it is open is told so. -/
def Told (b : Bool) : (c : SessionCall) × c.Answer → Prop
  | ⟨.connected, x⟩ => x = b
  | _ => True

/-- A trace of a session that is open to begin with, or not, and in the end. -/
def Follows : Bool → SessionTrace → Bool → Prop
  | b, [], b' => b' = b
  | b, e :: tr, b' => Told b e ∧ Follows (e.1.leaves b) tr b'

namespace Follows

theorem append (tr tr' : SessionTrace) : Follows b (tr ++ tr') b' ↔ ∃ m, Follows b tr m ∧ Follows m tr' b' := by
  induction tr generalizing b with
  | nil => exact ⟨fun h => ⟨b, rfl, h⟩, fun ⟨_, rfl, h⟩ => h⟩
  | cons e tr ih => simp only [List.cons_append, Follows, ih, and_assoc, exists_and_left]

theorem plain {α : Type} {p q : SessionPlan α} (hp : Session.Plain p) (ht : p.Leaves tr q) : Follows b tr b' ↔ b' = b := by
  have hcalls := hp.calls ht
  clear ht
  induction tr with
  | nil => exact Iff.rfl
  | cons e tr ih =>
    have hrest := ih fun e he => hcalls e (List.mem_cons_of_mem _ he)
    obtain ⟨c, x⟩ := e
    rcases hcalls _ List.mem_cons_self with rfl | ⟨q, rfl⟩
    · exact (and_iff_right trivial).trans hrest
    · exact (and_iff_right trivial).trans hrest

theorem shake {q : SessionPlan (Except BackendFault Unit)} (ht : (Session.shake path).Leaves tr q) :
    Follows b tr b' ↔ b' = b := by
  rw [Session.shake_eq] at ht
  cases ht with
  | here => exact Iff.rfl
  | @call _ _ there tr _ ht =>
    refine (and_iff_right trivial).trans ?_
    cases there with
    | false =>
      cases ht
      exact Iff.rfl
    | true => exact plain (.stage fun _ => .done _) ht

end Follows

/-! ## One call -/

/-- What looks like a handshake is the wait for an operation that the daemon has just named so. -/
def Mistaken (l : List Said) : Prop := ∀ before a after, l = before ++ (serverRequest, a) :: after →
  ∃ r x rest, before.getLast? = some (r, .ok x) ∧ x.Starts ("/1.0#" ++ rest)

/-- What a call keeps to in a session that is open before it, or not, and then. -/
structure Conducted (b : Bool) (tr : SessionTrace) (q : SessionPlan α) (b' : Bool) : Prop where
  /-- It begins with the handshake, and goes on only after a good one. -/
  handshake : b = false → said tr = [] ∨ ∃ a l, said tr = (serverRequest, a) :: l ∧
    (l ≠ [] → ∃ x, a = .ok x ∧ x.Greets) ∧ Mistaken l
  silent : b = false → said tr = [] → (∃ a, q = .done a) → Session.SocketMissing tr ∨ ∃ why, Ended tr why
  further : b = true → Mistaken (said tr)
  state : (∃ a, q = .done a) → (b' = true ↔ b = true ∨ ∃ x, (serverRequest, .ok x) ∈ said tr ∧ x.Greets)

theorem mistaken_nil : Mistaken [] := fun before _ _ h => by cases before <;> cases h

theorem mistaken_of_nil {l : List Said} (h : l = []) : Mistaken l := h ▸ mistaken_nil

/-- A stage that was passed has said something. -/
theorem said_ne_nil {e : Endpoint α} {blame : String → BackendFault} {next : α → SessionPlan (Except BackendFault β)}
    {q : SessionPlan (Except BackendFault β)} (h : (Session.stage e blame next).Leaves tr q) {a : β}
    (hq : q = .done (.ok a)) : said tr ≠ [] := by
  cases Session.stageLeaves h with
  | start =>
    rw [Session.stage_eq] at hq
    cases hq
  | passed _ _ _ => exact List.cons_ne_nil _ _
  | _ => cases hq

theorem greets_of_shake (h : (Session.shake path).Leaves tr (.done (.ok ()))) :
    ∃ x, said tr = [(serverRequest, .ok x)] ∧ x.Greets := by
  refine (Session.shakes_shake h).opens.1.resolve_left ?_
  rw [Session.shake_eq] at h
  cases h with
  | @call _ _ there tr _ h =>
    cases there with
    | false => cases h
    | true =>
      show said tr ≠ []
      exact said_ne_nil h rfl

/-- What a connect has come to: nothing is said in a session that is open, and otherwise there is the handshake. -/
inductive Connects (path : String) : Bool → SessionTrace → SessionPlan (Except BackendFault Unit) → Bool → Prop
  | there {tr : SessionTrace} {q : SessionPlan (Except BackendFault Unit)} : said tr = [] → (∀ a, q = .done a → a = .ok ()) →
      Connects path true tr q true
  | underway {tr : SessionTrace} {c : SessionCall} {next : c.Answer → SessionPlan (Except BackendFault Unit)} :
      said tr = [] ∨ (∃ x, said tr = [(serverRequest, x)]) → Connects path false tr (.call c next) false
  | opened {tr : SessionTrace} {x : Exchange} : said tr = [(serverRequest, .ok x)] → x.Greets →
      Connects path false tr (.done (.ok ())) true
  | failed {tr : SessionTrace} {fault : BackendFault} :
      Session.Shakes (said tr) (Ended tr) (Session.SocketMissing tr) (.done (.error fault)) →
      Connects path false tr (.done (.error fault)) false

theorem connects {q : SessionPlan (Except BackendFault Unit)} (h : (Session.connect path).Leaves tr q)
    (hf : Follows b tr b') : Connects path b tr q b' := by
  cases Session.connectLeaves h with
  | there =>
    obtain ⟨rfl, rfl⟩ := hf
    exact .there rfl fun a h => by cases h; rfl
  | entering htr =>
    have hb : b' = b ∧ said tr = [] := by
      rcases htr with rfl | rfl | rfl
      · exact ⟨hf, rfl⟩
      · exact ⟨hf.2, rfl⟩
      · exact ⟨hf.2.2, rfl⟩
    obtain ⟨rfl, hsaid⟩ := hb
    cases b' with
    | true => exact .there hsaid fun a h => nomatch h
    | false => exact .underway (.inl hsaid)
  | thereMeanwhile =>
    obtain ⟨rfl, -, h, -⟩ := hf
    cases h
  | leftThere =>
    obtain ⟨rfl, -, h, -⟩ := hf
    cases h
  | shaking hshake =>
    obtain ⟨rfl, -, -, hf⟩ := hf
    rw [(Follows.shake hshake).mp hf]
    exact .underway (Session.shakes_shake hshake).hello
  | @left tr result hshake =>
    obtain ⟨rfl, -, -, hf⟩ := hf
    obtain ⟨m, -, -, rfl⟩ := (Follows.append tr _).mp hf
    cases result with
    | ok u =>
      obtain ⟨x, hx, hgreets⟩ := greets_of_shake hshake
      exact .opened ((Session.said_opened tr _).trans hx) hgreets
    | error fault => exact .failed (Session.shakes_connect h)

theorem Connects.conducted {q : SessionPlan (Except BackendFault Unit)} (h : Connects path b tr q b') :
    Conducted b tr q b' := by
  cases h with
  | there hsaid _ =>
    exact ⟨nofun, nofun, fun _ => mistaken_of_nil hsaid, fun _ => iff_of_true rfl (.inl rfl)⟩
  | underway hsaid =>
    refine ⟨fun _ => hsaid.imp_right fun ⟨x, hx⟩ => ⟨x, [], hx, fun h => absurd rfl h, mistaken_nil⟩, ?_,
      nofun, ?_⟩
    · rintro - - ⟨a, ha⟩
      cases ha
    · rintro ⟨a, ha⟩
      cases ha
  | @opened _ x hsaid hgreets =>
    refine ⟨fun _ => .inr ⟨_, [], hsaid, fun h => absurd rfl h, mistaken_nil⟩, fun _ hnil => ?_, nofun,
      fun _ => iff_of_true rfl (.inr ⟨x, by rw [hsaid]; exact List.mem_singleton.mpr rfl, hgreets⟩)⟩
    rw [hsaid] at hnil
    cases hnil
  | failed h =>
    have hungreeted : (∃ x, (serverRequest, .ok x) ∈ said tr ∧ x.Greets) → False := by
      rintro ⟨y, hy, hgreets⟩
      generalize said tr = hello at h hy
      cases h with
      | alone _ _ => cases hy
      | refused hbad _ _ =>
        cases List.mem_singleton.mp hy
        exact hbad hgreets
      | interrupted hsaid _ _ =>
        rcases hsaid with rfl | rfl
        · cases hy
        · cases List.mem_singleton.mp hy
    refine ⟨fun _ => h.hello.imp_right fun ⟨x, hx⟩ => ⟨x, [], hx, fun h => absurd rfl h, mistaken_nil⟩, fun _ hnil _ => ?_,
      nofun, fun _ => iff_of_false (nofun) (not_or.mpr ⟨nofun, hungreeted⟩)⟩
    rw [hnil] at h
    cases h with
    | alone _ hmissing => exact .inl hmissing
    | @interrupted _ _ _ why _ hended _ => exact .inr ⟨why, (hended why).mpr rfl⟩

theorem within_conducted {p q : SessionPlan (Except BackendFault β)} (hplain : Session.Plain p)
    (hp : ∀ {tr q}, p.Leaves tr q → Mistaken (said tr)) (h : (Session.within path p).Leaves tr q)
    (hf : Follows b tr b') : Conducted b tr q b' := by
  cases Session.withinLeaves h with
  | opening hconnect =>
    obtain ⟨hhandshake, -, hfurther, -⟩ := (connects hconnect hf).conducted
    refine ⟨hhandshake, ?_, hfurther, ?_⟩
    · rintro - - ⟨a, ha⟩
      cases ha
    · rintro ⟨a, ha⟩
      cases ha
  | failed hconnect =>
    obtain ⟨hhandshake, hsilent, hfurther, hstate⟩ := (connects hconnect hf).conducted
    exact ⟨hhandshake, fun hb hnil _ => hsilent hb hnil ⟨_, rfl⟩, hfurther, fun _ => hstate ⟨_, rfl⟩⟩
  | @opened before after _ hconnect hafter =>
    obtain ⟨m, hm, hf⟩ := (Follows.append before after).mp hf
    have hl := hp hafter
    have hb' := (Follows.plain hplain hafter).mp hf
    cases connects hconnect hm with
    | there hsaid _ =>
      have hall : said (before ++ after) = said after := by rw [said_append, hsaid, List.nil_append]
      refine ⟨nofun, nofun, fun _ => ?_, fun _ => iff_of_true hb' (.inl rfl)⟩
      rw [hall]
      exact hl
    | @opened _ x hsaid hgreets =>
      have hall : said (before ++ after) = (serverRequest, .ok x) :: said after := by
        rw [said_append, hsaid, List.singleton_append]
      refine ⟨fun _ => .inr ⟨_, _, hall, fun _ => ⟨x, rfl, hgreets⟩, hl⟩, fun _ hnil => ?_, nofun,
        fun _ => iff_of_true hb' (.inr ⟨x, ?_, hgreets⟩)⟩
      · rw [hall] at hnil
        cases hnil
      · rw [hall]
        exact List.mem_cons_self

/-! ## Requests that look like a handshake -/

section

variable {r : InstanceRequest} {name : String} {l : List Said}

theorem instances_ne_server (behind : String) : "/1.0/instances/" ++ behind ≠ "/1.0" := by
  intro h
  have hlength := congrArg (fun path => path.toList.length) h
  simp only [String.toList_append, List.length_append] at hlength
  have hfront : "/1.0/instances/".toList.length = 15 := rfl
  have hserver : "/1.0".toList.length = 4 := rfl
  omega

theorem Protocol.Gated.mistaken {P : Protocol} (h : P.Gated l)
    (hP : ∀ {before stage request good}, P.Enters before stage request good → request = .ok serverRequest →
      ∃ r x operation, before.getLast? = some (r, .ok x) ∧ x.Starts operation ∧
        request = (Endpoint.wait operation).request) : Mistaken l := by
  rintro before a after hl
  obtain ⟨stage, good, henters, -⟩ := h before serverRequest a after hl
  obtain ⟨r, x, operation, hlast, hstarts, hrequest⟩ := hP henters rfl
  obtain ⟨-, hwait⟩ := Endpoint.wait_request_eq_ok_iff.mp hrequest.symm
  obtain ⟨rest, rfl⟩ := waitRequest_eq_serverRequest_iff.mp hwait.symm
  exact ⟨r, x, rest, hlast, hstarts⟩

theorem mistaken_create {q : SessionPlan (Except BackendFault Unit)} (h : (Session.create r).Leaves tr q) :
    Mistaken (said tr) := by
  have htalk := (plans_create.stands .nil h).talk
  refine htalk.gated.mistaken fun henters hrequest => ?_
  cases henters with
  | post => cases congrArg Request.method (Endpoint.create_request_eq_ok_iff.mp hrequest).2
  | wait hstarts => exact ⟨_, _, _, rfl, hstarts, rfl⟩

theorem mistaken_delete {q : SessionPlan (Except BackendFault Unit)} (h : (Session.delete name).Leaves tr q) :
    Mistaken (said tr) := by
  by_cases hname : validName name = true
  · have htalk := ((plans_delete hname).stands .nil h).talk
    refine htalk.gated.mistaken fun henters hrequest => ?_
    cases henters with
    | state =>
      have hpath := congrArg Request.path (Except.ok.inj hrequest)
      rw [stateRequest, serverRequest, String.append_assoc] at hpath
      exact absurd hpath (instances_ne_server _)
    | stop _ _ => cases congrArg Request.method (Except.ok.inj hrequest)
    | stopWait _ _ hstarts => exact ⟨_, _, _, rfl, hstarts, rfl⟩
    | delete _ => cases congrArg Request.method (Except.ok.inj hrequest)
    | deleteWait _ hstarts => exact ⟨_, _, _, List.getLast?_concat, hstarts, rfl⟩
  · unfold Session.delete at h
    exact mistaken_of_nil (Session.said_of_refused (Endpoint.state_request_of_not hname) h)

theorem mistaken_exist {q : SessionPlan (Except BackendFault Bool)} (h : (Session.exist name).Leaves tr q) :
    Mistaken (said tr) := by
  have hlook : ∀ a, Mistaken [(lookUpRequest name, a)] := by
    rintro a before b after hl
    rcases List.cons_eq_append_iff.mp hl with ⟨rfl, h⟩ | ⟨rest, rfl, h⟩
    · have hpath := congrArg (fun s : Said => s.1.path) (List.cons.inj h).1.symm
      exact absurd hpath (instances_ne_server _)
    · simp at h
  cases Session.looks_exist h with
  | start => exact mistaken_nil
  | stopped why => exact mistaken_nil
  | refused _ => exact mistaken_nil
  | asking _ => exact mistaken_nil
  | brokenOff why _ => exact hlook _
  | answered x _ => exact hlook _

/-- Any call but the last of a session. -/
theorem conducted {c : BackendCall} (hc : c ≠ .close) {q : SessionPlan c.Answer} (h : (Session.plan path c).Leaves tr q)
    (hf : Follows b tr b') : Conducted b tr q b' := by
  cases c with
  | connect => exact (connects h hf).conducted
  | create r => exact within_conducted plain_create mistaken_create h hf
  | delete name => exact within_conducted plain_delete mistaken_delete h hf
  | exist name => exact within_conducted Session.plain_exist mistaken_exist h hf
  | close => exact absurd rfl hc

end

end MachineKeeper.Daemon

namespace MachineKeeper.Rehearsal

open Daemon (SessionCall SessionPlan SessionTrace Follows Conducted said serverRequest)

variable {α : Type} {ctx : Context} {w w' : World} {path : String}

/-! ## Calls in a world -/

/-- How the surroundings answer a call of a session: the daemon has any script by then, and a wait ends as the context
says. -/
inductive Answers (ctx : Context) (c : SessionCall) (w : World) : c.Answer → World → Prop
  | atOnce {routes : List Route} {x : c.Answer} {w' : World} :
      World.session ctx c { w with routes := routes } = (.atOnce x, w') → Answers ctx c w x w'
  | waited {routes : List Route} {ctx' : Context} {ready : Option Instant} {answer : Except Interruption Unit → c.Answer}
      {w' : World} {t : Instant} {result : Except Interruption Unit} :
      World.session ctx c { w with routes := routes } = (.waiting ctx' ready answer, w') →
      ctx'.await w'.signals w'.now ready = some (t, result) → Answers ctx c w (answer result) { w' with now := t }

/-- A plan of a session, as far as it has come, and what it has left behind. -/
inductive Lived (ctx : Context) : SessionPlan α → World → SessionTrace → SessionPlan α → World → Prop
  | here (p : SessionPlan α) (w : World) : Lived ctx p w [] p w
  | call {c : SessionCall} {next : c.Answer → SessionPlan α} {x : c.Answer} {w w' w'' : World} {tr : SessionTrace}
      {q : SessionPlan α} : Answers ctx c w x w' → Lived ctx (next x) w' tr q w'' →
      Lived ctx (.call c next) w (⟨c, x⟩ :: tr) q w''

theorem Lived.leaves {p q : SessionPlan α} {tr : SessionTrace} (h : Lived ctx p w tr q w') : p.Leaves tr q := by
  induction h with
  | here p w => exact .here p
  | call _ _ ih => exact .call ih

theorem connected_session (ctx : Context) (c : SessionCall) (w : World) :
    (w.session ctx c).2.connected = c.leaves w.connected := by
  cases c with
  | enter =>
    simp only [World.session]
    split <;> rfl
  | exchange q =>
    simp only [World.session, catchUp_eq]
    split <;> rfl
  | _ => rfl

theorem Answers.follows {c : SessionCall} {x : c.Answer} (h : Answers ctx c w x w') :
    Follows w.connected [⟨c, x⟩] w'.connected := by
  cases h with
  | @atOnce routes _ _ h =>
    have hconnected := connected_session ctx c { w with routes := routes }
    rw [h] at hconnected
    refine ⟨?_, hconnected⟩
    cases c with
    | connected => cases h; rfl
    | _ => trivial
  | @waited routes _ _ _ w' _ _ h =>
    have hconnected := connected_session ctx c { w with routes := routes }
    rw [h] at hconnected
    refine ⟨?_, hconnected⟩
    cases c with
    | connected => cases h
    | _ => trivial

theorem Lived.follows {p q : SessionPlan α} {tr : SessionTrace} (h : Lived ctx p w tr q w') :
    Follows w.connected tr w'.connected := by
  induction h with
  | here p w => rfl
  | call hanswer _ ih => exact (Follows.append [_] _).mpr ⟨_, hanswer.follows, ih⟩

/-- Nothing is sent but what the plan asks for. -/
theorem Answers.sent {c : SessionCall} {x : c.Answer} (h : Answers ctx c w x w') :
    ∃ sent, w'.requests = w.requests ++ sent ∧ sent.Sublist ((said [⟨c, x⟩]).map Prod.fst) := by
  cases h with
  | atOnce h =>
    have hlog : w'.log = w.log := by
      cases c with
      | exchange q =>
        simp only [World.session, catchUp_eq] at h
        split at h
        · cases h; rfl
        · cases h
      | enter =>
        simp only [World.session] at h
        split at h
        · cases h
        · cases h; rfl
      | _ => cases h; rfl
    exact ⟨[], by simp [World.requests, hlog], List.nil_sublist _⟩
  | waited h _ =>
    cases c with
    | exchange q =>
      simp only [World.session, catchUp_eq] at h
      split at h
      · cases h
      · cases h
        exact ⟨[q], by simp [World.requests, World.record, LogEntry.request?], List.Sublist.refl _⟩
    | enter =>
      simp only [World.session] at h
      split at h <;> cases h
    | _ => cases h

theorem Lived.sent {p q : SessionPlan α} {tr : SessionTrace} (h : Lived ctx p w tr q w') :
    ∃ sent, w'.requests = w.requests ++ sent ∧ sent.Sublist ((said tr).map Prod.fst) := by
  induction h with
  | here p w => exact ⟨[], (List.append_nil _).symm, List.nil_sublist _⟩
  | @call c _ x _ _ _ tr _ hanswer _ ih =>
    obtain ⟨first, hfirst, hsub⟩ := hanswer.sent
    obtain ⟨rest, hrest, hsubs⟩ := ih
    refine ⟨first ++ rest, by rw [hrest, hfirst, List.append_assoc], ?_⟩
    rw [show (⟨c, x⟩ :: tr : SessionTrace) = [⟨c, x⟩] ++ tr from rfl, Daemon.said_append, List.map_append]
    exact hsub.append hsubs

/-- A plan that is carried out alone and comes to its end, against any daemon. -/
theorem lived_of_result (conduct : Conduct) {limit : Instant} {p : SessionPlan α} {a : α}
    (h : (playUnder conduct limit (sessionAct ctx p) w).result = some a) :
    ∃ tr, Lived ctx p w tr (.done a) (playUnder conduct limit (sessionAct ctx p) w).world := by
  induction p generalizing w with
  | done b =>
    cases h
    exact ⟨[], .here _ _⟩
  | call c next ih =>
    have hact : sessionAct ctx (.call c next) = .call (.session ctx c) fun x => sessionAct ctx (next x) := rfl
    rw [hact, playUnder] at h ⊢
    cases hperform : World.perform (.session ctx c) { w with routes := conduct (.session ctx c) w } with
    | mk response w' =>
      rw [hperform] at h
      cases response with
      | atOnce x =>
        obtain ⟨tr, htr⟩ := ih x h
        exact ⟨_, .call (.atOnce hperform) htr⟩
      | waiting ctx' ready answer =>
        dsimp only at h ⊢
        cases hawait : ctx'.await w'.signals w'.now ready with
        | none =>
          rw [hawait] at h
          cases h
        | some woken =>
          rw [hawait] at h
          dsimp only at h ⊢
          split at h
          · next hle =>
            rw [if_pos hle]
            obtain ⟨tr, htr⟩ := ih _ h
            exact ⟨_, .call (.waited hperform hawait) htr⟩
          · cases h
      | queued x => cases h

/-! ## The life of a client -/

/-- A call that has returned, and what passed between it and its surroundings. -/
structure Past where
  call : BackendCall
  trace : SessionTrace

/-- A client that has made its calls one after the other. What else happens does not open a session, nor end one. -/
inductive Client (path : String) : List Past → World → Prop
  | new {w : World} : w.connected = false → w.opening = false → Client path [] w
  | called {us : List Past} {w w' : World} {ctx : Context} {c : BackendCall} {tr : SessionTrace} {a : c.Answer} :
      Client path us w → Lived ctx (Daemon.Session.plan path c) w tr (.done a) w' → Client path (us ++ [⟨c, tr⟩]) w'
  | meanwhile {us : List Past} {w w' : World} : Client path us w → w'.connected = w.connected → w'.opening = w.opening →
      Client path us w'

/-- The handshake has succeeded in that call. -/
def Past.Greeted (u : Past) : Prop := ∃ x, (serverRequest, .ok x) ∈ said u.trace ∧ x.Greets

/-- It has succeeded since the client was made, or since the last close. -/
def GreetedSince (us : List Past) : Prop :=
  ∃ before u after, us = before ++ u :: after ∧ (∀ v ∈ u :: after, v.call ≠ .close) ∧ u.Greeted

theorem greetedSince_snoc {us : List Past} {u : Past} :
    GreetedSince (us ++ [u]) ↔ u.call ≠ .close ∧ (GreetedSince us ∨ u.Greeted) := by
  constructor
  · rintro ⟨before, v, after, hus, hcalls, hv⟩
    rcases snoc_eq_append_cons hus with ⟨rfl, rfl, rfl⟩ | ⟨after, rfl, rfl⟩
    · exact ⟨hcalls u List.mem_cons_self, .inr hv⟩
    · exact ⟨hcalls u (by simp), .inl ⟨before, v, after, rfl, fun v hv => hcalls v (List.mem_append_left [u] hv), hv⟩⟩
  · rintro ⟨hu, ⟨before, v, after, rfl, hcalls, hv⟩ | hgreeted⟩
    · refine ⟨before, v, after ++ [u], by simp, fun v' hv' => ?_, hv⟩
      rcases List.mem_append.mp (List.cons_append ▸ hv') with hv' | hv'
      · exact hcalls v' hv'
      · exact List.mem_singleton.mp hv' ▸ hu
    · exact ⟨us, u, [], rfl, fun v hv => List.mem_singleton.mp hv ▸ hu, hgreeted⟩

theorem Lived.close {tr : SessionTrace} {q : SessionPlan BackendCall.close.Answer}
    (h : Lived ctx (Daemon.Session.plan path .close) w tr q w') :
    said tr = [] ∧ ∀ a, q = .done a → w'.connected = false := by
  have hfollows := h.follows
  cases h.leaves with
  | here => exact ⟨rfl, nofun⟩
  | call h =>
    cases h
    exact ⟨rfl, fun _ _ => hfollows.2⟩

/-- The session is open as long as the last handshake holds. -/
theorem Client.connected_iff {us : List Past} (h : Client path us w) : w.connected = true ↔ GreetedSince us := by
  induction h with
  | new hconnected _ =>
    refine iff_of_false (by simp [hconnected]) ?_
    rintro ⟨before, u, after, h, -⟩
    simp at h
  | @called us w w' ctx c tr a _ hlived ih =>
    rw [greetedSince_snoc]
    by_cases hc : c = .close
    · subst hc
      have hclosed := hlived.close.2 a rfl
      exact iff_of_false (by simp [hclosed]) fun h => h.1 rfl
    · rw [and_iff_right hc, ← ih]
      exact (Daemon.conducted hc hlived.leaves hlived.follows).state ⟨a, rfl⟩
  | meanwhile _ hconnected _ ih => rw [hconnected, ih]

/-- Between two calls the session is open if the handshake has succeeded since the last close, or since the client was
made. A call keeps to that, whatever the daemon does and however far it gets: in a session that is not open the handshake
comes first, and nothing else without it; in one that is open a request that looks like a handshake is the wait for an
operation of such a name. A close says nothing. -/
theorem session_states {us : List Past} (h : Client path us w) :
    (w.connected = true ↔ GreetedSince us) ∧
      ∀ ctx c tr q w', Lived ctx (Daemon.Session.plan path c) w tr q w' →
        (c = .close → said tr = [] ∧ ∀ a, q = .done a → w'.connected = false) ∧
          (c ≠ .close → Conducted w.connected tr q w'.connected) ∧
          ∃ sent, w'.requests = w.requests ++ sent ∧ sent.Sublist ((said tr).map Prod.fst) := by
  refine ⟨h.connected_iff, fun ctx c tr q w' hlived => ⟨?_, fun hc => ?_, hlived.sent⟩⟩
  · rintro rfl
    exact hlived.close
  · exact Daemon.conducted hc hlived.leaves hlived.follows

/-! A daemon that names an operation after the place of the handshake. -/

def misleading : World :=
  { World.start someTime .emptyMemory with
    routes := [⟨"GET", "/1.0", ⟨200, "\x7b\"type\":\"sync\",\"metadata\":\x7b\x7d\x7d"⟩, none, 0, .answered⟩,
      ⟨"POST", "/1.0/instances", ⟨202, "\x7b\"type\":\"async\",\"operation\":\"/1.0#\"\x7d"⟩, none, 0, .answered⟩] }

def byScript : Conduct := fun _ w => w.routes

def connecting : Played (Except BackendFault Unit) :=
  playUnder byScript 0 (sessionAct .background (Daemon.Session.plan "" .connect)) misleading

/-- In the session that is open by then. -/
def creating : Played (Except BackendFault Unit) :=
  playUnder byScript 0 (sessionAct .background (Daemon.Session.plan "" (.create Daemon.web))) connecting.world

theorem result_connecting : connecting.result = some (.ok ()) := by decide +kernel

theorem connected_connecting : connecting.world.connected = true := by decide +kernel

theorem client_connecting : ∃ tr, Client "" [⟨.connect, tr⟩] connecting.world := by
  obtain ⟨tr, hlived⟩ := lived_of_result byScript result_connecting
  exact ⟨tr, .called (.new rfl rfl) hlived⟩

theorem session_states_connecting : ∃ tr, Client "" [⟨.connect, tr⟩] connecting.world ∧
    connecting.world.connected = true ∧ GreetedSince [⟨.connect, tr⟩] := by
  obtain ⟨tr, h⟩ := client_connecting
  exact ⟨tr, h, connected_connecting, (session_states h).1.mp connected_connecting⟩

/-- The wait for the operation is another handshake in an open session. -/
theorem shakes_hands_again : (∃ us, Client "" us connecting.world) ∧ connecting.world.connected = true ∧
    creating.sent.map (fun s => (s.2.method, s.2.path)) =
      [(.post, "/1.0/instances"), (serverRequest.method, serverRequest.path)] :=
  ⟨client_connecting.imp' _ fun _ h => h, connected_connecting, by decide +kernel⟩

end MachineKeeper.Rehearsal
