/-
  MachineKeeper.Proofs.Rehearsal.Addressed — what reaches the daemon is about the intended instance.

  What a plan may ask for is known from its traces, and whatever is sent in a world is asked for in
  one of them (`sent_in_trace`). So it is enough to look at traces: of one call, and of a whole
  reconcile, in which each request is taken back to the call that makes it. A reconcile makes no
  calls but for the instance of the machine it has read.

  A name that is no label is refused without a word to the daemon, with the error of the call.

  Proved:
  - `sent_in_trace`: what is sent, however the daemon behaves.
  - `refused`: what comes of a call for such a name.
  - `asksFor`: each request of a reconcile, with the call that makes it.
  - `requests_addressed`: all of it; but the wait for an operation may be cut off at a `#`.
-/

import MachineKeeper.Proofs.Daemon.Addressing
import MachineKeeper.Proofs.Rehearsal.Absence

namespace MachineKeeper.Rehearsal

open Daemon (Endpoint Exchange IsLabel KeepsTo Meant OfInstance Request SessionPlan serverRequest validName_iff)

variable {α β : Type} {path name : String} {ctx : Context} {limit : Instant} {w w' : World}

/-! ## What is sent -/

/-- No call sends anything but the exchange that asks for it. -/
theorem sent_perform {c : World.Call} {routes : List Route} {response : World.Response c.Answer}
    (h : World.perform c { w with routes := routes } = (response, w')) (x : c.Answer) :
    ((w.sentSince w').map Prod.snd).Sublist ((exchanges [⟨c, x⟩]).map Prod.fst) := by
  obtain ⟨entries, hlog, hentries⟩ := logs_perform c { w with routes := routes }
  rw [h] at hlog
  have hrequests : w'.requests = w.requests ++ entries.filterMap LogEntry.request? := by
    rw [World.requests, hlog, List.filterMap_append]
    rfl
  have hsent : (w.sentSince w').map Prod.snd = entries.filterMap LogEntry.request? :=
    List.append_cancel_left ((requests_perform c w routes h).symm.trans hrequests)
  rw [hsent]
  cases hentries with
  | nothing => exact List.nil_sublist _
  | simulated ctx c => exact List.Sublist.refl []
  | exchange ctx q => exact List.Sublist.refl [q]

/-- Whatever a plan sends is asked for in one of its traces. -/
theorem sent_in_trace (conduct : Conduct) (limit : Instant) (p : Act α) (w : World) :
    ∃ tr q, p.Leaves tr q ∧
      ((playUnder conduct limit p w).sent.map Prod.snd).Sublist ((exchanges tr).map Prod.fst) := by
  induction p generalizing w with
  | done a => exact ⟨[], .done a, .here _, List.Sublist.refl _⟩
  | call c next ih =>
    rw [playUnder]
    cases hperform : World.perform c { w with routes := conduct c w } with
    | mk response w' =>
      have hsent := sent_perform hperform
      -- one that is not answered is asked for all the same
      have hlast : ∀ x, ∃ tr q, (Plan.call c next).Leaves tr q ∧
          ((w.sentSince w').map Prod.snd).Sublist ((exchanges tr).map Prod.fst) :=
        fun x => ⟨[⟨c, x⟩], next x, .call (.here _), hsent x⟩
      have hmore : ∀ x (w'' : World), ∃ tr q, (Plan.call c next).Leaves tr q ∧
          (((playUnder conduct limit (next x) w'').after (w.sentSince w')).sent.map Prod.snd).Sublist
            ((exchanges tr).map Prod.fst) := by
        intro x w''
        obtain ⟨tr, q, hleaves, hsub⟩ := ih x w''
        refine ⟨⟨c, x⟩ :: tr, q, .call hleaves, ?_⟩
        rw [Played.after, List.map_append, show (⟨c, x⟩ :: tr : ActTrace) = [⟨c, x⟩] ++ tr from rfl, exchanges_append,
          List.map_append]
        exact (hsent x).append hsub
      cases response with
      | atOnce a => exact hmore a w'
      | waiting ctx ready answer =>
        dsimp only
        cases ctx.await w'.signals w'.now ready with
        | none => exact hlast (answer (.error .cancelled))
        | some woken =>
          dsimp only
          split
          · exact hmore _ _
          · exact hlast (answer (.error .cancelled))
      | queued a => exact hlast a

/-! ## Names that are no labels -/

/-- The error of a call for an instance that cannot have that name. -/
def refusal : (c : BackendCall) → Option c.Answer
  | .create r => some (.error (.create r.name ("request rejected: " ++ (Daemon.ApiFault.invalidName r.name).message)))
  | .delete name => some (.error (.delete name ("reading state: " ++ (Daemon.ApiFault.invalidName name).message)))
  | .exist name => some (.error (.query name (Daemon.ApiFault.invalidName name).message))
  | .connect | .close => none

/-- The call comes to that, and has sent nothing. -/
def Refuses (conduct : Conduct) (limit : Instant) (p : Act α) (w : World) (a : α) : Prop :=
  (playUnder conduct limit p w).result = some a ∧ (playUnder conduct limit p w).sent = []

section

variable {conduct : Conduct} {a : α}

theorem refuses_interruption {next : Option Interruption → SessionPlan α} (hctx : w.interruption ctx = none)
    (h : next none = .done a) : Refuses conduct limit (sessionAct ctx (.call .interruption next)) w a := by
  have hplay : playUnder conduct limit (sessionAct ctx (.call .interruption next)) w =
      (playUnder conduct limit (sessionAct ctx (next (w.interruption ctx)))
        { w with routes := conduct (.session ctx .interruption) w }).after [] := by
    have hsilent : w.sentSince { w with routes := conduct (.session ctx .interruption) w } = [] := sentSince_of_log rfl
    rw [← hsilent]
    rfl
  unfold Refuses
  rw [hplay, hctx, h]
  exact ⟨rfl, rfl⟩

theorem refuses_stage {e : Endpoint β} {blame : String → BackendFault} {next : β → SessionPlan (Except BackendFault α)}
    {fault : Daemon.ApiFault} (he : e.request = .error fault) (hctx : w.interruption ctx = none) :
    Refuses conduct limit (sessionAct ctx (Daemon.Session.stage e blame next)) w (.error (blame fault.message)) := by
  rw [Daemon.Session.stage_eq]
  apply refuses_interruption hctx
  rw [he]

/-- An open session is gone on with. -/
theorem refuses_within {p : SessionPlan (Except BackendFault α)} {a : Except BackendFault α} (hconnected : w.connected = true)
    (h : ∀ routes, Refuses conduct limit (sessionAct ctx p) { w with routes := routes } a) :
    Refuses conduct limit (sessionAct ctx (Daemon.Session.within path p)) w a := by
  have hplay : playUnder conduct limit (sessionAct ctx (Daemon.Session.within path p)) w =
      (playUnder conduct limit (sessionAct ctx p) { w with routes := conduct (.session ctx .connected) w }).after [] := by
    have hsilent : w.sentSince { w with routes := conduct (.session ctx .connected) w } = [] := sentSince_of_log rfl
    rw [← hsilent, Daemon.Session.within_eq, Daemon.Session.connect_eq]
    show (playUnder conduct limit (sessionAct ctx (Plan.bind (match w.connected with | true => _ | false => _) _)) _).after _ = _
    rw [hconnected]
    rfl
  unfold Refuses
  rw [hplay]
  exact h _

end

theorem refused (conduct : Conduct) {c : BackendCall} {a : c.Answer} (hc : c.Concerns name) (hname : ¬IsLabel name)
    (ha : refusal c = some a) (hconnected : w.connected = true) (hctx : w.interruption ctx = none) :
    Refuses conduct limit (backendAct (.daemon path) ctx c) w a := by
  have hvalid : Daemon.validName name ≠ true := fun h => hname (validName_iff.mp h)
  have hlive : ∀ routes, World.interruption ctx { w with routes := routes } = none := fun _ => hctx
  cases c with
  | connect => cases ha
  | close => cases ha
  | create r =>
    subst hc
    cases ha
    have hrequest : (Endpoint.create r).request = .error (.invalidName r.name) := if_neg hvalid
    apply refuses_within hconnected
    intro routes
    unfold Daemon.Session.create
    exact refuses_stage hrequest (hlive routes)
  | delete name' =>
    subst hc
    cases ha
    apply refuses_within hconnected
    intro routes
    unfold Daemon.Session.delete
    exact refuses_stage (Endpoint.state_request_of_not hvalid) (hlive routes)
  | exist name' =>
    subst hc
    cases ha
    apply refuses_within hconnected
    intro routes
    rw [Daemon.Session.exist_eq]
    apply refuses_interruption (hlive routes)
    rw [Endpoint.lookUp_request_of_not hvalid]
    rfl

/-! ## Reconciles -/

/-- A reconcile makes no call but for the instance of the machine it has read. -/
theorem concerns_of_reconcile {m : Machine} {c : BackendCall} {tr : Trace (ReconcileCall.Answer (k := .machine))}
    {next : c.Answer → Reconcile.MachinePlan} (h : (Reconcile.afterRead m).Leaves tr (.call (.backend c) next)) :
    c.Concerns m.instanceName := by
  have hanswer : ∃ x : c.Answer, True := by
    cases c <;> exact ⟨.error (.interrupted .cancelled), trivial⟩
  obtain ⟨x, -⟩ := hanswer
  have htalk := (((Reconcile.wary_machine m).leaves h).2 x).talks
  rcases htalk.names c (by simp) with rfl | rfl | rfl | rfl
  · trivial
  · rfl
  · rfl
  · rfl

/-- A request of a reconcile is one of a backend call, which has begun after so much. -/
theorem exchange_of_answer {c : ReconcileCall .machine} {ctx' : Context} {q : Request} {a : Except Interruption Exchange}
    {own : ActTrace} {rest : Act c.Answer}
    (h : (answerAct (.daemon path) ctx c).Leaves (own ++ [⟨.session ctx' (.exchange q), a⟩]) rest) :
    ∃ c', c = .backend c' := by
  cases c with
  | store c => cases (last_of_ask h).2
  | wallClock => cases (last_of_ask h).2
  | backend c => exact ⟨c, rfl⟩

/-- The requests of a call are those of its session. -/
theorem keepsTo_backendAct {c : BackendCall} (hc : c.Concerns name) {tr : ActTrace} {q : Act c.Answer}
    (h : (backendAct (.daemon path) ctx c).Leaves tr q) : KeepsTo name (exchanges tr) := by
  obtain ⟨own, p', hown, -, rfl⟩ := leaves_sessionAct h
  rw [exchanges_session]
  exact Daemon.keepsTo_plan hc hown

/-- A reconcile of that key asks for that after so much: it has read a machine, and a call for the instance of that
machine, in which it has come so far, means it. -/
def AsksFor (path : String) (ctx : Context) (key : Key) (before : ActTrace) (q : Request) : Prop :=
  ∃ m past own c p, before.head? = some ⟨.store .machine (.get key), .ok (some m)⟩ ∧ before = past ++ own ∧
    c.Concerns m.instanceName ∧ (backendAct (.daemon path) ctx c).Leaves own p ∧ Meant m.instanceName (exchanges own) q ∧
    (¬IsLabel m.instanceName → q = serverRequest)

theorem asksFor {key : Key} {tr before after : ActTrace} {q : Act (Except ReconcileFault Requeue)} {ctx' : Context}
    {r : Request} {a : Except Interruption Exchange}
    (h : (reconcileAct (.daemon path) ctx .machine key).Leaves tr q)
    (htr : tr = before ++ ⟨.session ctx' (.exchange r), a⟩ :: after) : AsksFor path ctx key before r := by
  subst htr
  obtain ⟨tr, c, next, past, own, rest, hleaves, hpast, rfl, hown⟩ := Plan.Leaves.of_via h
  obtain ⟨c, rfl⟩ := exchange_of_answer hown
  rw [Reconcile.machine_eq_onRead] at hleaves
  cases hleaves with
  | @call _ _ answer tr _ hleaves =>
    obtain ⟨read, past, rfl, hread, -⟩ := hpast.uncons
    match answer, hleaves with
    | .ok (some m), hleaves =>
      have hconcerns := concerns_of_reconcile hleaves
      obtain ⟨p, hp, -⟩ := hown.split
      have hkeeps := keepsTo_backendAct hconcerns hown
      have hexchanges : exchanges (own ++ [⟨.session ctx' (.exchange r), a⟩]) = exchanges own ++ [(r, a)] :=
        exchanges_append own _
      rw [hexchanges] at hkeeps
      refine ⟨m, read ++ past, own, c, _, ?_, rfl, hconcerns, hp, hkeeps.addressed (exchanges own) r a [] rfl, ?_⟩
      · cases hread with
        | call hread =>
          cases hread
          rfl
      · intro hname
        rcases hkeeps.refused hname with hnil | ⟨a', hsingle⟩
        · simp at hnil
        · obtain ⟨-, hlast⟩ := List.append_inj' (hsingle.trans (List.nil_append _).symm) rfl
          cases hlast
          rfl

/-- **What the daemon is asked is about the instance that is meant.** A name gets into a request only if it is a label, which
is one segment of its path and of nobody else's. All that a call asks for is about its instance, or is the wait for an
operation that was named in the call; a reconcile asks for nothing but through such calls, for the machine it has read. A
name that is no label is refused, with the handshake at most. But the wait for an operation with a `#` in its name is cut off
there. -/
theorem requests_addressed (path : String) :
    (∀ name, IsLabel name → ∀ c ∈ name.toList, c ∉ ['/', '?', '#', '%', '.']) ∧
    (∀ name name' place, OfInstance name place → OfInstance name' place → IsLabel name → IsLabel name' → name = name') ∧
    (∀ ctx name (c : BackendCall) tr q, c.Concerns name → (backendAct (.daemon path) ctx c).Leaves tr q →
      KeepsTo name (exchanges tr)) ∧
    (∀ ctx key tr q, (reconcileAct (.daemon path) ctx .machine key).Leaves tr q →
      ∀ before ctx' r a after, tr = before ++ ⟨.session ctx' (.exchange r), a⟩ :: after → AsksFor path ctx key before r) ∧
    (∀ conduct limit ctx (w : World) name c a, c.Concerns name → ¬IsLabel name → refusal c = some a → w.connected = true →
      w.interruption ctx = none → Refuses conduct limit (backendAct (.daemon path) ctx c) w a) ∧
    ∀ conduct limit (α : Type) (p : Act α) w, ∃ tr q, p.Leaves tr q ∧
      ((playUnder conduct limit p w).sent.map Prod.snd).Sublist ((exchanges tr).map Prod.fst) := by
  refine ⟨?_, ?_, ?_, ?_, ?_, ?_⟩
  · intro name hname
    exact hname.plain
  · intro name name' place hplace hplace' hname hname'
    exact hplace.unique hplace' hname hname'
  · intro ctx name c tr q hc h
    exact keepsTo_backendAct hc h
  · intro ctx key tr q h before ctx' r a after htr
    exact asksFor h htr
  · intro conduct limit ctx w name c a hc hname ha hconnected hctx
    exact refused conduct hc hname ha hconnected hctx
  · intro conduct limit α p w
    exact sent_in_trace conduct limit p w

/-! A machine that is asked to go, a daemon that knows nothing, and a name that leads elsewhere. -/

def gone : ActTrace × Act (Except ReconcileFault Requeue) :=
  transcript 10 (reconcileAct (.daemon "") .background .machine ⟨"default", "w1"⟩) departing

theorem requests_addressed_departing :
    (∀ c ∈ "w1".toList, c ∉ ['/', '?', '#', '%', '.']) ∧
    KeepsTo "w1" (exchanges (transcript 10 (backendAct (.daemon "") .background (.delete "w1")) departing).1) ∧
    (exchanges gone.1).map (fun s => s.1.path) = ["/1.0/instances/w1"] ∧
    (∀ before ctx' r a after, gone.1 = before ++ ⟨.session ctx' (.exchange r), a⟩ :: after →
      AsksFor "" .background ⟨"default", "w1"⟩ before r) ∧
    Refuses mute 10 (backendAct (.daemon "") .background (.delete "../w1")) departing
      (.error (.delete "../w1" ("reading state: " ++ (Daemon.ApiFault.invalidName "../w1").message))) := by
  obtain ⟨hplain, -, hcall, hreconcile, hrefused, -⟩ := requests_addressed ""
  have hlabel : IsLabel "w1" := validName_iff.mp (by decide)
  have hother : ¬IsLabel "../w1" := fun h => absurd (validName_iff.mpr h) (by decide)
  refine ⟨hplain "w1" hlabel, ?_, by decide +kernel, ?_, ?_⟩
  · exact hcall .background "w1" (.delete "w1") _ _ rfl (leaves_transcript 10 _ departing)
  · exact hreconcile .background ⟨"default", "w1"⟩ gone.1 gone.2 (leaves_transcript 10 _ departing)
  · exact hrefused mute 10 .background departing "../w1" (.delete "../w1") _ rfl hother rfl rfl rfl

end MachineKeeper.Rehearsal
