/-
  MachineKeeper.Proofs.Daemon.Stages — calls that go on stage by stage, against any daemon.

  A call asks one thing after another, and what it asks next follows from the answers so far. A
  `Protocol` says so without a plan: after what has been said this stage is entered, with this
  request, and an answer to it is good or not. `Plans` ties a plan to a protocol, one stage after
  the other, and the trace of a call is then read off stage by stage (`Stands`), with whatever
  the daemon answers, the context ending anywhere, and up to any point of the call.

  Proved:
  - `Stands.talk`, `Talk.gated`: nothing is asked but what the protocol comes to next, and
    nothing after an answer that is not good.
  - `Stands.ends`: success is for the complete protocol alone, and a failure names its stage.
  - `shakes_connect`: the handshake before it, and how it ends.
  - `Plans.kept`: all of it together, for a call that opens the session first if it has to.
-/

import MachineKeeper.Daemon.Session
import MachineKeeper.Proofs.Daemon.Reply
import MachineKeeper.Proofs.Traces

namespace MachineKeeper.Daemon

variable {α β : Type}

/-! ## What is said -/

/-- A request, and what came of it under the context. -/
abbrev Said := Request × Except Interruption Exchange

abbrev SessionTrace := Trace SessionCall.Answer

def said (tr : SessionTrace) : List Said := tr.filterMap fun
  | ⟨.exchange q, x⟩ => some (q, x)
  | _ => none

/-- The context was found to be done, before a request or while waiting for what comes of one. -/
def Ended (tr : SessionTrace) (why : Interruption) : Prop :=
  ⟨.interruption, some why⟩ ∈ tr ∨ ∃ q, ⟨.exchange q, .error why⟩ ∈ tr

theorem said_append (tr tr' : SessionTrace) : said (tr ++ tr') = said tr ++ said tr' := List.filterMap_append

theorem said_unsent (why : Option Interruption) : said [⟨.interruption, why⟩] = [] := rfl

theorem ended_append {tr tr' : SessionTrace} {why : Interruption} : Ended (tr ++ tr') why ↔ Ended tr why ∨ Ended tr' why := by
  simp only [Ended, List.mem_append, exists_or]
  exact or_or_or_comm

/-! ## One stage -/

namespace Session

/-- How far a stage has come, and what is left then. -/
inductive StageLeaves (e : Endpoint α) (blame : String → BackendFault) (next : α → SessionPlan (Except BackendFault β)) :
    SessionTrace → SessionPlan (Except BackendFault β) → Prop
  | start : StageLeaves e blame next [] (stage e blame next)
  | stopped (why : Interruption) :
      StageLeaves e blame next [⟨.interruption, some why⟩] (.done (.error (.interrupted why)))
  | refused {fault : ApiFault} : e.request = .error fault →
      StageLeaves e blame next [⟨.interruption, none⟩] (.done (.error (blame fault.message)))
  | asking {q : Request} {next' : Except Interruption Exchange → SessionPlan (Except BackendFault β)} : e.request = .ok q →
      StageLeaves e blame next [⟨.interruption, none⟩] (.call (.exchange q) next')
  | brokenOff {q : Request} (why : Interruption) : e.request = .ok q →
      StageLeaves e blame next [⟨.interruption, none⟩, ⟨.exchange q, .error why⟩] (.done (.error (.interrupted why)))
  | failed {q : Request} {x : Exchange} {fault : ApiFault} : e.request = .ok q → e.conclude x = .error fault →
      StageLeaves e blame next [⟨.interruption, none⟩, ⟨.exchange q, .ok x⟩] (.done (.error (blame fault.message)))
  | passed {q : Request} {x : Exchange} {a : α} {tr : SessionTrace} {p : SessionPlan (Except BackendFault β)} :
      e.request = .ok q → e.conclude x = .ok a → (next a).Leaves tr p →
      StageLeaves e blame next (⟨.interruption, none⟩ :: ⟨.exchange q, .ok x⟩ :: tr) p

theorem stage_eq (e : Endpoint α) (blame : String → BackendFault) (next : α → SessionPlan (Except BackendFault β)) :
    stage e blame next = .call .interruption fun
      | some why => .done (.error (.interrupted why))
      | none => match e.request with
        | .error fault => .done (.error (blame fault.message))
        | .ok q => .call (.exchange q) fun
          | .error why => .done (.error (.interrupted why))
          | .ok x => match e.conclude x with
            | .error fault => .done (.error (blame fault.message))
            | .ok a => next a := by
  refine congrArg (Plan.call SessionCall.interruption) (funext fun why => ?_)
  cases why with
  | some why => rfl
  | none =>
    dsimp only
    cases e.request with
    | error fault => rfl
    | ok q =>
      refine congrArg (Plan.call (SessionCall.exchange q)) (funext fun x => ?_)
      cases x with
      | error why => rfl
      | ok x =>
        dsimp only
        cases hconclude : e.conclude x <;> simp only [pure, Plan.bind, hconclude]

theorem stageLeaves {e : Endpoint α} {blame : String → BackendFault} {next : α → SessionPlan (Except BackendFault β)}
    {tr : SessionTrace} {p : SessionPlan (Except BackendFault β)} (h : (stage e blame next).Leaves tr p) :
    StageLeaves e blame next tr p := by
  rw [stage_eq] at h
  cases h with
  | here =>
    rw [← stage_eq]
    exact .start
  | @call _ _ why tr _ h =>
    cases why with
    | some why =>
      cases h
      exact .stopped why
    | none =>
      dsimp only at h
      cases hrequest : e.request with
      | error fault =>
        rw [hrequest] at h
        cases h
        exact .refused hrequest
      | ok q =>
        rw [hrequest] at h
        cases h with
        | here => exact .asking hrequest
        | @call _ _ x tr _ h =>
          cases x with
          | error why =>
            cases h
            exact .brokenOff why hrequest
          | ok x =>
            dsimp only at h
            cases hconclude : e.conclude x with
            | error fault =>
              rw [hconclude] at h
              cases h
              exact .failed hrequest hconclude
            | ok a =>
              rw [hconclude] at h
              exact .passed hrequest hconclude h

/-- Nothing but requests under the context: such a plan neither opens a session nor ends one. -/
inductive Plain {γ : Type} : SessionPlan γ → Prop
  | done (a : γ) : Plain (.done a)
  | interruption {next : Option Interruption → SessionPlan γ} : (∀ x, Plain (next x)) → Plain (.call .interruption next)
  | exchange {q : Request} {next : Except Interruption Exchange → SessionPlan γ} : (∀ x, Plain (next x)) →
      Plain (.call (.exchange q) next)

theorem Plain.stage {e : Endpoint α} {blame : String → BackendFault} {next : α → SessionPlan (Except BackendFault β)}
    (h : ∀ a, Plain (next a)) : Plain (stage e blame next) := by
  rw [stage_eq]
  refine .interruption fun why => ?_
  cases why with
  | some why => exact .done _
  | none =>
    dsimp only
    cases e.request with
    | error fault => exact .done _
    | ok q =>
      refine .exchange fun x => ?_
      cases x with
      | error why => exact .done _
      | ok x =>
        dsimp only
        cases e.conclude x with
        | error fault => exact .done _
        | ok a => exact h a

theorem Plain.calls {γ : Type} {p q : SessionPlan γ} {tr : SessionTrace} (h : Plain p) (ht : p.Leaves tr q) :
    ∀ e ∈ tr, e.1 = .interruption ∨ ∃ q, e.1 = .exchange q := by
  induction ht with
  | here p => exact fun e he => nomatch he
  | @call c next x tr q _ ih =>
    intro e he
    cases h with
    | interruption hnext =>
      rcases List.mem_cons.mp he with rfl | he
      · exact .inl rfl
      · exact ih (hnext x) e he
    | exchange hnext =>
      rcases List.mem_cons.mp he with rfl | he
      · exact .inr ⟨_, rfl⟩
      · exact ih (hnext x) e he

/-- A request that cannot be made leaves nothing to be said. -/
theorem said_of_refused {e : Endpoint α} {blame : String → BackendFault} {next : α → SessionPlan (Except BackendFault β)}
    {tr : SessionTrace} {p : SessionPlan (Except BackendFault β)} {fault : ApiFault} (hrequest : e.request = .error fault)
    (h : (stage e blame next).Leaves tr p) : said tr = [] := by
  cases stageLeaves h with
  | start | stopped _ | refused _ => rfl
  | asking hr | brokenOff _ hr | failed hr _ | passed hr _ _ => cases hrequest.symm.trans hr

theorem leaves_stage {e : Endpoint α} {blame : String → BackendFault} {next : α → SessionPlan (Except BackendFault β)}
    {r : Request} {x : Exchange} {a : α} {tr : SessionTrace} {p : SessionPlan (Except BackendFault β)}
    (hrequest : e.request = .ok r) (hconclude : e.conclude x = .ok a) (h : (next a).Leaves tr p) :
    (stage e blame next).Leaves (⟨.interruption, none⟩ :: ⟨.exchange r, .ok x⟩ :: tr) p := by
  rw [stage_eq]
  refine .call ?_
  rw [hrequest]
  refine .call ?_
  dsimp only
  rw [hconclude]
  exact h

end Session

/-! ## A row of stages -/

/-- What a call that goes on stage by stage is to keep to. -/
structure Protocol where
  /-- After what has been said the stage of that name is entered, with its request and what is a good answer to it. -/
  Enters : List Said → String → Except ApiFault Request → (Exchange → Prop) → Prop
  Complete : List Said → Prop
  blame : String → String → BackendFault

namespace Protocol

variable {P : Protocol} {l : List Said} {p q : SessionPlan (Except BackendFault Unit)} {tr : SessionTrace}

/-- All stages so far have been answered well. -/
inductive Passed (P : Protocol) : List Said → Prop
  | nil : P.Passed []
  | snoc {l : List Said} {name : String} {r : Request} {good : Exchange → Prop} {x : Exchange} :
      P.Passed l → P.Enters l name (.ok r) good → good x → P.Passed (l ++ [(r, .ok x)])

/-- The plan goes on by the protocol. -/
inductive Plans (P : Protocol) : List Said → SessionPlan (Except BackendFault Unit) → Prop
  | stage {l : List Said} {name : String} {α : Type} {e : Endpoint α} {good : Exchange → Prop}
      {next : α → SessionPlan (Except BackendFault Unit)} : P.Enters l name e.request good →
      (∀ x, good x ↔ ∃ a, e.conclude x = .ok a) →
      (∀ r x a, e.request = .ok r → e.conclude x = .ok a → P.Plans (l ++ [(r, .ok x)]) (next a)) →
      P.Plans l (Session.stage e (P.blame name) next)
  | complete {l : List Said} : P.Complete l → P.Plans l (.done (.ok ()))

/-- Where a call stands after what has been said, and how it ends. The context has ended for the given reason, if
it was found to have ended. -/
inductive Stands (P : Protocol) : List Said → (Interruption → Prop) → SessionPlan (Except BackendFault Unit) → Prop
  | entered {l : List Said} {ended : Interruption → Prop} {c : SessionCall}
      {next : c.Answer → SessionPlan (Except BackendFault Unit)} :
      P.Passed l → P.Stands l ended (.call c next)
  | complete {l : List Said} {ended : Interruption → Prop} : P.Passed l → P.Complete l → (∀ why, ¬ended why) →
      P.Stands l ended (.done (.ok ()))
  | stopped {l : List Said} {ended : Interruption → Prop} {name : String} {request : Except ApiFault Request}
      {good : Exchange → Prop} {why : Interruption} : P.Passed l → P.Enters l name request good →
      (∀ why', ended why' ↔ why' = why) → P.Stands l ended (.done (.error (.interrupted why)))
  | brokenOff {l : List Said} {ended : Interruption → Prop} {name : String} {r : Request}
      {good : Exchange → Prop} {why : Interruption} : P.Passed l → P.Enters l name (.ok r) good →
      (∀ why', ended why' ↔ why' = why) → P.Stands (l ++ [(r, .error why)]) ended (.done (.error (.interrupted why)))
  | refused {l : List Said} {ended : Interruption → Prop} {name : String} {fault : ApiFault} {good : Exchange → Prop} :
      P.Passed l → P.Enters l name (.error fault) good → (∀ why, ¬ended why) →
      P.Stands l ended (.done (.error (P.blame name fault.message)))
  | failed {l : List Said} {ended : Interruption → Prop} {name : String} {r : Request} {good : Exchange → Prop}
      {x : Exchange} {reason : String} : P.Passed l → P.Enters l name (.ok r) good → ¬good x → (∀ why, ¬ended why) →
      P.Stands (l ++ [(r, .ok x)]) ended (.done (.error (P.blame name reason)))

theorem Plans.stands (h : P.Plans l p) (hl : P.Passed l) (ht : p.Leaves tr q) : P.Stands (l ++ said tr) (Ended tr) q := by
  induction h generalizing tr with
  | @complete l hcomplete =>
    cases ht
    rw [said, List.filterMap_nil, List.append_nil]
    exact .complete hl hcomplete (by simp [Ended])
  | @stage l name α e good next henters hgood _ ih =>
    cases Session.stageLeaves ht with
    | start =>
      rw [Session.stage_eq, said, List.filterMap_nil, List.append_nil]
      exact .entered hl
    | stopped why =>
      rw [said_unsent, List.append_nil]
      exact .stopped hl henters (by simp [Ended])
    | refused hrequest =>
      rw [said_unsent, List.append_nil]
      rw [hrequest] at henters
      exact .refused hl henters (by simp [Ended])
    | asking hrequest =>
      rw [said_unsent, List.append_nil]
      exact .entered hl
    | brokenOff why hrequest =>
      rw [hrequest] at henters
      exact .brokenOff hl henters (by simp [Ended])
    | failed hrequest hconclude =>
      rw [hrequest] at henters
      refine .failed hl henters (fun h => ?_) (by simp [Ended])
      obtain ⟨a, ha⟩ := (hgood _).mp h
      cases ha.symm.trans hconclude
    | @passed r x a tr _ hrequest hconclude hnext =>
      rw [hrequest] at henters
      have hstands := ih r x a hrequest hconclude (hl.snoc henters ((hgood x).mpr ⟨a, hconclude⟩)) hnext
      rw [List.append_assoc] at hstands
      have hended : Ended (⟨.interruption, none⟩ :: ⟨.exchange r, .ok x⟩ :: tr) = Ended tr := by
        funext why
        simp [Ended]
      rw [hended]
      exact hstands

/-- Stages that were answered well, and one more request at most. -/
inductive Talk (P : Protocol) : List Said → Prop
  | passed {l : List Said} : P.Passed l → P.Talk l
  | last {l : List Said} {name : String} {r : Request} {good : Exchange → Prop} (y : Except Interruption Exchange) :
      P.Passed l → P.Enters l name (.ok r) good → P.Talk (l ++ [(r, y)])

theorem Stands.talk {ended : Interruption → Prop} (h : P.Stands l ended q) : P.Talk l := by
  cases h with
  | entered hl => exact .passed hl
  | complete hl => exact .passed hl
  | stopped hl => exact .passed hl
  | brokenOff hl henters => exact .last _ hl henters
  | refused hl => exact .passed hl
  | failed hl henters => exact .last _ hl henters

theorem Passed.entry (h : P.Passed l) {before after : List Said} {r : Request} {x : Except Interruption Exchange}
    (hl : l = before ++ (r, x) :: after) : ∃ name good y, P.Enters before name (.ok r) good ∧ x = .ok y ∧ good y := by
  induction h generalizing after with
  | nil => simp at hl
  | @snoc g name r' good x' _ henters hx ih =>
    rcases snoc_eq_append_cons hl with ⟨rfl, hlast, -⟩ | ⟨after, rfl, -⟩
    · cases hlast
      exact ⟨name, good, x', henters, rfl, hx⟩
    · exact ih rfl

/-- Each request is that of the stage which what was said before it leads to, and nothing is said after an answer that
is not good. -/
def Gated (P : Protocol) (l : List Said) : Prop := ∀ before r x after, l = before ++ (r, x) :: after →
  ∃ name good, P.Enters before name (.ok r) good ∧ (after ≠ [] → ∃ y, x = .ok y ∧ good y)

theorem Talk.gated (h : P.Talk l) : P.Gated l := by
  intro before r x after hl
  cases h with
  | passed hpassed =>
    obtain ⟨name, good, y, henters, rfl, hy⟩ := hpassed.entry hl
    exact ⟨name, good, henters, fun _ => ⟨y, rfl, hy⟩⟩
  | @last g name r' good y hpassed henters =>
    rcases snoc_eq_append_cons hl with ⟨rfl, hlast, rfl⟩ | ⟨after, rfl, -⟩
    · cases hlast
      exact ⟨name, good, henters, fun hnil => absurd rfl hnil⟩
    · obtain ⟨name, good, y, hbefore, rfl, hy⟩ := hpassed.entry rfl
      exact ⟨name, good, hbefore, fun _ => ⟨y, rfl, hy⟩⟩

/-- What a protocol has to see to: a call is complete only when no stage is left and the last one was answered well,
and a stage is not blamed for what is not its own. -/
structure Lawful (P : Protocol) : Prop where
  nothing : ¬P.Complete []
  entered : ∀ {l name request good}, P.Enters l name request good → ¬P.Complete l
  finished : ∀ {l name r good y}, P.Enters l name (.ok r) good → P.Complete (l ++ [(r, y)]) → ∃ x, y = .ok x ∧ good x
  interrupted : ∀ name reason why, P.blame name reason ≠ .interrupted why
  connection : ∀ name reason reason', P.blame name reason ≠ .connection reason'

/-- The stage that a call has failed in, after what has been said, and why. -/
inductive Fails (P : Protocol) : List Said → String → String → Prop
  | refused {l : List Said} {name : String} {fault : ApiFault} {good : Exchange → Prop} :
      P.Enters l name (.error fault) good → P.Fails l name fault.message
  | answered {l : List Said} {name : String} {r : Request} {good : Exchange → Prop} {x : Exchange} (reason : String) :
      P.Enters l name (.ok r) good → ¬good x → P.Fails (l ++ [(r, .ok x)]) name reason

/-- How a call ends. -/
structure Ends (P : Protocol) (l : List Said) (ended : Interruption → Prop) (result : Except BackendFault Unit) : Prop where
  ok : result = .ok () ↔ P.Complete l
  interrupted : ∀ why, result = .error (.interrupted why) ↔ ended why
  connection : ∀ reason, result ≠ .error (.connection reason)
  blamed : ¬P.Complete l → (∀ why, ¬ended why) →
    ∃ name reason, P.Fails l name reason ∧ result = .error (P.blame name reason)

omit P in
theorem interrupted_iff {ended : Interruption → Prop} {why : Interruption} (h : ∀ why', ended why' ↔ why' = why)
    (why' : Interruption) :
    (.error (.interrupted why) : Except BackendFault Unit) = .error (.interrupted why') ↔ ended why' := by
  rw [h, Except.error.injEq, BackendFault.interrupted.injEq]
  exact eq_comm

theorem Stands.ends (hP : P.Lawful) {ended : Interruption → Prop} {result : Except BackendFault Unit}
    (h : P.Stands l ended (.done result)) : P.Ends l ended result := by
  have hblamed : ∀ {name reason}, result = .error (P.blame name reason) → ¬P.Complete l → (∀ why, ¬ended why) →
      P.Fails l name reason → P.Ends l ended result := by
    rintro name reason rfl hcomplete hended hfails
    refine ⟨iff_of_false (fun h => nomatch h) hcomplete, fun why => iff_of_false (fun h => ?_) (hended why),
      fun reason' h => ?_, fun _ _ => ⟨name, reason, hfails, rfl⟩⟩
    · exact hP.interrupted name reason why (Except.error.inj h)
    · exact hP.connection name reason reason' (Except.error.inj h)
  have hinterrupted : ∀ {why}, result = .error (.interrupted why) → ¬P.Complete l → (∀ why', ended why' ↔ why' = why) →
      P.Ends l ended result := by
    rintro why rfl hcomplete hended
    exact ⟨iff_of_false (fun h => nomatch h) hcomplete, interrupted_iff hended, (fun _ h => nomatch h),
      fun _ hnot => absurd ((hended why).mpr rfl) (hnot why)⟩
  cases h with
  | complete _ hcomplete hended =>
    exact ⟨iff_of_true rfl hcomplete, fun why => iff_of_false (fun h => nomatch h) (hended why), (fun _ h => nomatch h),
      fun hnot => absurd hcomplete hnot⟩
  | stopped _ henters hended => exact hinterrupted rfl (hP.entered henters) hended
  | brokenOff _ henters hended =>
    refine hinterrupted rfl (fun hcomplete => ?_) hended
    obtain ⟨x, hx, -⟩ := hP.finished henters hcomplete
    cases hx
  | refused _ henters hended => exact hblamed rfl (hP.entered henters) hended (.refused henters)
  | failed _ henters hbad hended =>
    refine hblamed rfl (fun hcomplete => ?_) hended (.answered _ henters hbad)
    obtain ⟨x, hx, hgood⟩ := hP.finished henters hcomplete
    cases hx
    exact hbad hgood

end Protocol

/-! ## The handshake -/

namespace Session

theorem shake_eq (path : String) : shake path = .call .socketPresent fun
    | true => stage Endpoint.server .connection fun _ => .done (.ok ())
    | false => .done (.error (.connection (ApiFault.socketMissing path).message)) := by
  refine congrArg (Plan.call SessionCall.socketPresent) (funext fun there => ?_)
  cases there <;> rfl

theorem connect_eq (path : String) : connect path = .call .connected fun
    | true => .done (.ok ())
    | false => .call .enter fun _ => .call .connected fun
      | true => .call (.leave true) fun _ => .done (.ok ())
      | false => (shake path).bind fun result => .call (.leave result.isOk) fun _ => .done result := by
  refine congrArg (Plan.call SessionCall.connected) (funext fun there => ?_)
  cases there with
  | true => rfl
  | false =>
    refine congrArg (Plan.call SessionCall.enter) (funext fun _ => ?_)
    refine congrArg (Plan.call SessionCall.connected) (funext fun there => ?_)
    cases there <;> rfl

/-- The socket was found to be missing. -/
def SocketMissing (tr : SessionTrace) : Prop := ⟨.socketPresent, false⟩ ∈ tr

/-- Where a handshake stands after what has been said, and how it ends. -/
inductive Shakes : List Said → (Interruption → Prop) → Prop → SessionPlan (Except BackendFault Unit) → Prop
  | underway {hello : List Said} {ended : Interruption → Prop} {missing : Prop} {c : SessionCall}
      {next : c.Answer → SessionPlan (Except BackendFault Unit)} : hello = [] ∨ (∃ x, hello = [(serverRequest, x)]) →
      Shakes hello ended missing (.call c next)
  | opened {hello : List Said} {ended : Interruption → Prop} {missing : Prop} :
      hello = [] ∨ (∃ x, hello = [(serverRequest, .ok x)] ∧ x.Greets) → (∀ why, ¬ended why) → ¬missing →
      Shakes hello ended missing (.done (.ok ()))
  | alone {ended : Interruption → Prop} {missing : Prop} {reason : String} : (∀ why, ¬ended why) → missing →
      Shakes [] ended missing (.done (.error (.connection reason)))
  | refused {ended : Interruption → Prop} {missing : Prop} {x : Exchange} {reason : String} : ¬x.Greets →
      (∀ why, ¬ended why) → ¬missing →
      Shakes [(serverRequest, .ok x)] ended missing (.done (.error (.connection reason)))
  | interrupted {hello : List Said} {ended : Interruption → Prop} {missing : Prop} {why : Interruption} :
      hello = [] ∨ hello = [(serverRequest, .error why)] → (∀ why', ended why' ↔ why' = why) → ¬missing →
      Shakes hello ended missing (.done (.error (.interrupted why)))

variable {path : String} {tr : SessionTrace} {q : SessionPlan (Except BackendFault Unit)}

theorem Shakes.hello {hello : List Said} {ended : Interruption → Prop} {missing : Prop}
    (h : Shakes hello ended missing q) : hello = [] ∨ ∃ x, hello = [(serverRequest, x)] := by
  cases h with
  | underway h => exact h
  | opened h => exact h.imp_right fun ⟨x, hx, _⟩ => ⟨.ok x, hx⟩
  | alone => exact .inl rfl
  | @refused _ _ x => exact .inr ⟨.ok x, rfl⟩
  | @interrupted _ _ _ why h => exact h.imp_right fun h => ⟨.error why, h⟩

theorem Shakes.opens {hello : List Said} {ended : Interruption → Prop} {missing : Prop}
    (h : Shakes hello ended missing (.done (.ok ()))) :
    (hello = [] ∨ ∃ x, hello = [(serverRequest, .ok x)] ∧ x.Greets) ∧ (∀ why, ¬ended why) ∧ ¬missing := by
  cases h with
  | opened hgreets hended hmissing => exact ⟨hgreets, hended, hmissing⟩

theorem shakes_shake (h : (shake path).Leaves tr q) : Shakes (said tr) (Ended tr) (SocketMissing tr) q := by
  have hrequest : ∀ {r}, Endpoint.server.request = .ok r → r = serverRequest := fun h => (Except.ok.inj h).symm
  rw [shake_eq] at h
  cases h with
  | here => exact .underway (.inl rfl)
  | @call _ _ there tr _ h =>
    cases there with
    | false =>
      cases h
      exact .alone (by simp [Ended]) (by simp [SocketMissing])
    | true =>
      cases stageLeaves h with
      | start =>
        rw [stage_eq]
        exact .underway (.inl rfl)
      | stopped why => exact .interrupted (.inl rfl) (by simp [Ended]) (by simp [SocketMissing])
      | refused hr =>
        rw [Endpoint.server_request] at hr
        cases hr
      | asking hr => exact .underway (.inl rfl)
      | brokenOff why hr =>
        cases hrequest hr
        exact .interrupted (.inr rfl) (by simp [Ended]) (by simp [SocketMissing])
      | @failed r x fault hr hconclude =>
        cases hrequest hr
        refine .refused (fun hgreets => ?_) (by simp [Ended]) (by simp [SocketMissing])
        obtain ⟨info, hinfo⟩ := Endpoint.greets_iff.mp hgreets
        cases hinfo.symm.trans hconclude
      | @passed r x info tr _ hr hconclude hdone =>
        cases hrequest hr
        cases hdone
        exact .opened (.inr ⟨x, rfl, Endpoint.greets_iff.mpr ⟨info, hconclude⟩⟩) (by simp [Ended]) (by simp [SocketMissing])

/-- Before the handshake somebody asks for the right to open the session, and looks again. -/
def opening : SessionTrace := [⟨.connected, false⟩, ⟨.enter, ()⟩, ⟨.connected, false⟩]

/-- How far a session has been opened. -/
inductive ConnectLeaves (path : String) : SessionTrace → SessionPlan (Except BackendFault Unit) → Prop
  | there : ConnectLeaves path [⟨.connected, true⟩] (.done (.ok ()))
  | entering {tr : SessionTrace} {c : SessionCall} {next : c.Answer → SessionPlan (Except BackendFault Unit)} :
      tr = [] ∨ tr = [⟨.connected, false⟩] ∨ tr = [⟨.connected, false⟩, ⟨.enter, ()⟩] → ConnectLeaves path tr (.call c next)
  | thereMeanwhile {c : SessionCall} {next : c.Answer → SessionPlan (Except BackendFault Unit)} :
      ConnectLeaves path [⟨.connected, false⟩, ⟨.enter, ()⟩, ⟨.connected, true⟩] (.call c next)
  | leftThere : ConnectLeaves path [⟨.connected, false⟩, ⟨.enter, ()⟩, ⟨.connected, true⟩, ⟨.leave true, ()⟩] (.done (.ok ()))
  | shaking {tr : SessionTrace} {p : SessionPlan (Except BackendFault Unit)} {c : SessionCall}
      {next : c.Answer → SessionPlan (Except BackendFault Unit)} :
      (shake path).Leaves tr p → ConnectLeaves path (opening ++ tr) (.call c next)
  | left {tr : SessionTrace} {result : Except BackendFault Unit} : (shake path).Leaves tr (.done result) →
      ConnectLeaves path (opening ++ tr ++ [⟨.leave result.isOk, ()⟩]) (.done result)

theorem connectLeaves (h : (connect path).Leaves tr q) : ConnectLeaves path tr q := by
  rw [connect_eq] at h
  cases h with
  | here => exact .entering (.inl rfl)
  | @call _ _ there tr _ h =>
    cases there with
    | true =>
      cases h
      exact .there
    | false =>
      cases h with
      | here => exact .entering (.inr (.inl rfl))
      | @call _ _ u tr _ h =>
        cases h with
        | here => exact .entering (.inr (.inr rfl))
        | @call _ _ there tr _ h =>
          cases there with
          | true =>
            cases h with
            | here => exact .thereMeanwhile
            | call h =>
              cases h
              exact .leftThere
          | false =>
            rcases h.of_bind with ⟨p', hp', rfl⟩ | ⟨result, before, after, rfl, hbefore, hafter⟩
            · cases p' <;> exact .shaking hp'
            · cases hafter with
              | here =>
                rw [List.append_nil]
                exact .shaking hbefore
              | call hafter =>
                cases hafter
                exact .left hbefore

/-- What comes before the handshake and after it says nothing. -/
theorem said_opened (tr : SessionTrace) (opened : Bool) : said (opening ++ tr ++ [⟨.leave opened, ()⟩]) = said tr := by
  rw [said_append]
  exact List.append_nil _

theorem shakes_connect (h : (connect path).Leaves tr q) : Shakes (said tr) (Ended tr) (SocketMissing tr) q := by
  have hunderway : ∀ {tr p c next}, (shake path).Leaves tr p →
      Shakes (said (opening ++ tr)) (Ended (opening ++ tr)) (SocketMissing (opening ++ tr)) (.call c next) :=
    fun hshake => .underway (shakes_shake hshake).hello
  cases connectLeaves h with
  | there => exact .opened (.inl rfl) (by simp [Ended]) (by simp [SocketMissing])
  | entering htr => rcases htr with rfl | rfl | rfl <;> exact .underway (.inl rfl)
  | thereMeanwhile => exact .underway (.inl rfl)
  | leftThere => exact .opened (.inl rfl) (by simp [Ended]) (by simp [SocketMissing])
  | shaking hshake => exact hunderway hshake
  | @left tr result hshake =>
    have hended : Ended (opening ++ tr ++ [⟨.leave result.isOk, ()⟩]) = Ended tr := by
      funext why
      simp [Ended, opening]
    have hmissing : SocketMissing (opening ++ tr ++ [⟨.leave result.isOk, ()⟩]) = SocketMissing tr := by
      simp [SocketMissing, opening]
    rw [hended, hmissing, said_opened]
    exact shakes_shake hshake

/-- What follows a connect: nothing if it has failed. -/
def goOn (p : SessionPlan (Except BackendFault β)) : Except BackendFault Unit → SessionPlan (Except BackendFault β)
  | .error fault => .done (.error fault)
  | .ok _ => p

theorem within_eq (path : String) (p : SessionPlan (Except BackendFault β)) :
    within path p = (connect path).bind (goOn p) := by
  refine congrArg (Plan.bind (connect path)) (funext fun result => ?_)
  cases result <;> rfl

/-- How far a call has come that opens the session first. -/
inductive WithinLeaves (path : String) (p : SessionPlan (Except BackendFault β)) :
    SessionTrace → SessionPlan (Except BackendFault β) → Prop
  | opening {tr : SessionTrace} {c : SessionCall} {next : c.Answer → SessionPlan (Except BackendFault Unit)}
      {next' : c.Answer → SessionPlan (Except BackendFault β)} :
      (connect path).Leaves tr (.call c next) → WithinLeaves path p tr (.call c next')
  | failed {tr : SessionTrace} {fault : BackendFault} : (connect path).Leaves tr (.done (.error fault)) →
      WithinLeaves path p tr (.done (.error fault))
  | opened {before after : SessionTrace} {q : SessionPlan (Except BackendFault β)} :
      (connect path).Leaves before (.done (.ok ())) → p.Leaves after q → WithinLeaves path p (before ++ after) q

theorem withinLeaves {p q : SessionPlan (Except BackendFault β)} (h : (within path p).Leaves tr q) :
    WithinLeaves path p tr q := by
  have hdone : ∀ {result before after}, (connect path).Leaves before (.done result) → (goOn p result).Leaves after q →
      WithinLeaves path p (before ++ after) q := by
    intro result before after hbefore hafter
    cases result with
    | error fault =>
      cases hafter
      rw [List.append_nil]
      exact .failed hbefore
    | ok u => exact .opened hbefore hafter
  rw [within_eq] at h
  rcases h.of_bind with ⟨p', hp', rfl⟩ | ⟨result, before, after, rfl, hbefore, hafter⟩
  · cases p' with
    | call c next => exact .opening hp'
    | done result =>
      rw [← List.append_nil tr]
      exact hdone hp' (.here _)
  · exact hdone hbefore hafter

/-- A session that is open is gone on with. -/
theorem leaves_within {p q : SessionPlan (Except BackendFault β)} (h : p.Leaves tr q) :
    (within path p).Leaves (⟨.connected, true⟩ :: tr) q := .call h

end Session

namespace Protocol

variable {P : Protocol} {l : List Said} {p q : SessionPlan (Except BackendFault Unit)} {tr : SessionTrace} {path : String}

/-- There is no daemon behind the socket that answers the handshake as it should. -/
def Unreachable (tr : SessionTrace) (hello : List Said) : Prop :=
  Session.SocketMissing tr ∨ ∃ x, hello = [(serverRequest, .ok x)] ∧ ¬x.Greets

/-- What a call comes to, after what has been said by way of handshake and then. -/
structure Results (P : Protocol) (tr : SessionTrace) (hello l : List Said) (result : Except BackendFault Unit) : Prop where
  ok : result = .ok () ↔ P.Complete l
  connection : (∃ reason, result = .error (.connection reason)) ↔ Unreachable tr hello
  interrupted : ∀ why, result = .error (.interrupted why) ↔ Ended tr why
  blamed : ¬P.Complete l → ¬Unreachable tr hello → (∀ why, ¬Ended tr why) →
    ∃ name reason, P.Fails l name reason ∧ result = .error (P.blame name reason)

/-- A call keeps to the protocol: it asks for nothing else, each stage only after those before it have been answered
well, and all of them only after the handshake if there is one. -/
structure Kept (P : Protocol) (tr : SessionTrace) (q : SessionPlan (Except BackendFault Unit)) (hello l : List Said) :
    Prop where
  all : said tr = hello ++ l
  handshake : hello = [] ∨ ∃ x, hello = [(serverRequest, x)]
  greeted : l ≠ [] → ∀ s ∈ hello, ∃ x, s.2 = .ok x ∧ x.Greets
  talk : P.Talk l
  results : ∀ result, q = .done result → P.Results tr hello l result

/-- A handshake that has failed is the end of the call. -/
theorem results_of_shakes (hP : P.Lawful) {fault : BackendFault}
    (h : Session.Shakes (said tr) (Ended tr) (Session.SocketMissing tr) (.done (.error fault))) :
    P.Results tr (said tr) [] (.error fault) := by
  generalize hhello : said tr = hello at h
  have hfailed : ¬P.Complete [] := hP.nothing
  cases h with
  | alone hended hmissing =>
    exact ⟨iff_of_false (fun h => nomatch h) hfailed, iff_of_true ⟨_, rfl⟩ (.inl hmissing),
      fun why => iff_of_false (fun h => nomatch h) (hended why), fun _ hthere => absurd (.inl hmissing) hthere⟩
  | @refused _ _ x _ hbad hended hmissing =>
    have hunreachable : Unreachable tr [(serverRequest, .ok x)] := .inr ⟨x, rfl, hbad⟩
    exact ⟨iff_of_false (fun h => nomatch h) hfailed, iff_of_true ⟨_, rfl⟩ hunreachable,
      fun why => iff_of_false (fun h => nomatch h) (hended why), fun _ hthere => absurd hunreachable hthere⟩
  | @interrupted _ _ _ why hsaid hended hmissing =>
    refine ⟨iff_of_false (fun h => nomatch h) hfailed, iff_of_false (fun h => nomatch h) ?_, interrupted_iff hended,
      fun _ _ hnot => absurd ((hended why).mpr rfl) (hnot why)⟩
    rintro (hgone | ⟨x, rfl, -⟩)
    · exact hmissing hgone
    · rcases hsaid with hsaid | hsaid <;> cases hsaid

theorem Plans.kept (hP : P.Lawful) (hp : P.Plans [] p) (hplain : Session.Plain p) (h : (Session.within path p).Leaves tr q) :
    ∃ hello l, P.Kept tr q hello l := by
  cases Session.withinLeaves h with
  | opening hconnect =>
    exact ⟨_, [], (List.append_nil _).symm, (Session.shakes_connect hconnect).hello, fun hnil => absurd rfl hnil,
      .passed .nil, nofun⟩
  | failed hconnect =>
    have hshakes := Session.shakes_connect hconnect
    refine ⟨_, [], (List.append_nil _).symm, hshakes.hello, fun hnil => absurd rfl hnil, .passed .nil, ?_⟩
    rintro _ ⟨⟩
    exact results_of_shakes hP hshakes
  | @opened before after _ hconnect hafter =>
    have hshakes := Session.shakes_connect hconnect
    have hstands := hp.stands .nil hafter
    obtain ⟨hgreets, hended, hmissing⟩ := hshakes.opens
    refine ⟨said before, said after, said_append .., hshakes.hello, fun _ s hs => ?_, hstands.talk, ?_⟩
    · rcases hgreets with hnil | ⟨x, hx, hgreets⟩
      · rw [hnil] at hs
        cases hs
      · rw [hx] at hs
        cases List.mem_singleton.mp hs
        exact ⟨x, rfl, hgreets⟩
    · rintro result rfl
      have hends := hstands.ends hP
      have hreached : ¬Unreachable (before ++ after) (said before) := by
        rintro (hgone | ⟨x, hx, hbad⟩)
        · rcases List.mem_append.mp hgone with hgone | hgone
          · exact hmissing hgone
          · rcases hplain.calls hafter _ hgone with h | ⟨_, h⟩ <;> cases h
        · rw [hx] at hgreets
          rcases hgreets with h | ⟨y, h, hy⟩ <;> cases h
          exact hbad hy
      have hafterwards : ∀ why, Ended (before ++ after) why ↔ Ended after why := fun why => by
        rw [ended_append, or_iff_right (hended why)]
      refine ⟨hends.ok, iff_of_false ?_ hreached, fun why => (hends.interrupted why).trans (hafterwards why).symm,
        fun hnot _ hlive => hends.blamed hnot fun why hwhy => hlive why ((hafterwards why).mpr hwhy)⟩
      rintro ⟨reason, hreason⟩
      exact hends.connection reason hreason

end Protocol

end MachineKeeper.Daemon
