/-
  MachineKeeper.Proofs.Daemon.Look — what a look for an instance comes to.

  A look is one request. That the instance is not there is said by the daemon and by nobody else:
  it takes a reply, and a 404 in it (`Reply.Denies`). Whatever else goes wrong is a failed look.

  Proved:
  - `verdict_eq_true_iff`, `verdict_eq_false_iff`, `verdict_eq_error`: which answer leads to which
    result.
  - `looks_exist`: a look, followed through its answers.
-/

import MachineKeeper.Proofs.Daemon.Stages

namespace MachineKeeper.Daemon

namespace Session

variable {name : String} {x : Exchange}

/-- The result of a look, by what has come of its request. -/
def verdict (name : String) (x : Exchange) : Except BackendFault Bool :=
  match (Endpoint.lookUp name).conclude x with
  | .ok _ => .ok true
  | .error fault => if fault.isNotFound then .ok false else .error (.query name fault.message)

theorem verdict_eq_true_iff : verdict name x = .ok true ↔ ∃ r e, x = .reply r ∧ r.Carries e := by
  have hconclude : (∃ a, (Endpoint.lookUp name).conclude x = .ok a) ↔ ∃ r e, x = .reply r ∧ r.Carries e := by
    simp only [Endpoint.conclude_eq_ok_iff, Exchange.Carries]
    constructor
    · rintro ⟨_, e, ⟨r, hx, hcarries⟩, -⟩
      exact ⟨r, e, hx, hcarries⟩
    · rintro ⟨r, e, hx, hcarries⟩
      exact ⟨e.metadata, e, ⟨r, hx, hcarries⟩, rfl⟩
  rw [← hconclude, verdict]
  cases (Endpoint.lookUp name).conclude x with
  | ok a => exact iff_of_true rfl ⟨a, rfl⟩
  | error fault =>
    refine iff_of_false ?_ (by simp)
    cases hnot : fault.isNotFound <;> simp [hnot]

theorem conclude_lookUp (name : String) (r : Reply) {fault : ApiFault} :
    (Endpoint.lookUp name).conclude (.reply r) = .error fault ↔ r.envelope = .error fault := by
  simp only [Endpoint.conclude, bind, Except.bind]
  cases r.envelope with
  | error fault' => simp only [Except.error.injEq]
  | ok e => exact iff_of_false (by simp [Endpoint.lookUp]) (by simp)

theorem verdict_eq_false_iff : verdict name x = .ok false ↔ ∃ r, x = .reply r ∧ r.Denies := by
  cases x with
  | dropped => exact iff_of_false (by simp [verdict, Endpoint.conclude, ApiFault.isNotFound]) (by simp)
  | reply r =>
    simp only [Exchange.reply.injEq, exists_eq_left', Reply.denies_iff, ← conclude_lookUp name]
    rw [verdict]
    cases (Endpoint.lookUp name).conclude (.reply r) with
    | ok a => exact iff_of_false (by simp) (by simp)
    | error fault =>
      simp only [Except.error.injEq, exists_eq_left']
      cases fault.isNotFound <;> simp

/-- A look that has failed says for which instance. -/
theorem verdict_eq_error (name : String) (hthere : ¬∃ r e, x = .reply r ∧ r.Carries e)
    (hgone : ¬∃ r, x = .reply r ∧ r.Denies) :
    ∃ reason, verdict name x = .error (.query name reason) := by
  replace hthere : verdict name x ≠ .ok true := fun h => hthere (verdict_eq_true_iff.mp h)
  replace hgone : verdict name x ≠ .ok false := fun h => hgone (verdict_eq_false_iff.mp h)
  unfold verdict at hthere hgone ⊢
  cases hconclude : (Endpoint.lookUp name).conclude x with
  | ok a =>
    rw [hconclude] at hthere
    exact absurd rfl hthere
  | error fault =>
    rw [hconclude] at hgone
    cases hnot : fault.isNotFound with
    | true => exact absurd (by simp [hnot]) hgone
    | false => exact ⟨fault.message, by simp [hnot]⟩

theorem exist_eq (name : String) : exist name = .call .interruption fun
    | some why => .done (.error (.interrupted why))
    | none => match (Endpoint.lookUp name).request with
      | .error fault => .done (if fault.isNotFound then .ok false else .error (.query name fault.message))
      | .ok q => .call (.exchange q) fun
        | .error why => .done (.error (.interrupted why))
        | .ok x => .done (verdict name x) := by
  refine congrArg (Plan.call SessionCall.interruption) (funext fun why => ?_)
  cases why with
  | some why => rfl
  | none =>
    dsimp only
    cases (Endpoint.lookUp name).request with
    | error fault => cases hnot : fault.isNotFound <;> simp only [pure, Plan.bind, hnot] <;> rfl
    | ok q =>
      refine congrArg (Plan.call (SessionCall.exchange q)) (funext fun x => ?_)
      cases x with
      | error why => rfl
      | ok x =>
        simp only [pure, Plan.bind, verdict]
        cases (Endpoint.lookUp name).conclude x with
        | ok a => rfl
        | error fault => cases hnot : fault.isNotFound <;> simp only [hnot] <;> rfl

/-- How far a look has come. -/
inductive Looks (name : String) : SessionTrace → SessionPlan (Except BackendFault Bool) → Prop
  | start : Looks name [] (exist name)
  | stopped (why : Interruption) : Looks name [⟨.interruption, some why⟩] (.done (.error (.interrupted why)))
  | refused : validName name ≠ true →
      Looks name [⟨.interruption, none⟩] (.done (.error (.query name (ApiFault.invalidName name).message)))
  | asking {next : Except Interruption Exchange → SessionPlan (Except BackendFault Bool)} : validName name = true →
      Looks name [⟨.interruption, none⟩] (.call (.exchange (lookUpRequest name)) next)
  | brokenOff (why : Interruption) : validName name = true →
      Looks name [⟨.interruption, none⟩, ⟨.exchange (lookUpRequest name), .error why⟩] (.done (.error (.interrupted why)))
  | answered (x : Exchange) : validName name = true →
      Looks name [⟨.interruption, none⟩, ⟨.exchange (lookUpRequest name), .ok x⟩] (.done (verdict name x))

theorem looks_exist {tr : SessionTrace} {q : SessionPlan (Except BackendFault Bool)} (h : (exist name).Leaves tr q) :
    Looks name tr q := by
  rw [exist_eq] at h
  cases h with
  | here =>
    rw [← exist_eq]
    exact .start
  | @call _ _ why tr _ h =>
    cases why with
    | some why =>
      cases h
      exact .stopped why
    | none =>
      by_cases hname : validName name = true
      · rw [Endpoint.lookUp_request hname] at h
        cases h with
        | here => exact .asking hname
        | @call _ _ x _ _ h =>
          cases x with
          | error why =>
            cases h
            exact .brokenOff why hname
          | ok x =>
            cases h
            exact .answered x hname
      · rw [Endpoint.lookUp_request_of_not hname] at h
        cases h
        exact .refused hname

/-- That the instance is not there was the last to be said, and the daemon has said it. -/
theorem denied_of_absent {path : String} {tr : SessionTrace} (h : (within path (exist name)).Leaves tr (.done (.ok false))) :
    ∃ r, (said tr).getLast? = some (lookUpRequest name, .ok (.reply r)) ∧ r.Denies := by
  generalize hq : Plan.done (Except.ok false) = q at h
  cases withinLeaves h with
  | opening _ => cases hq
  | failed _ => cases hq
  | @opened before after _ _ hlook =>
    cases looks_exist hlook with
    | start =>
      rw [exist_eq] at hq
      cases hq
    | answered x _ =>
      obtain ⟨r, rfl, hdenies⟩ := verdict_eq_false_iff.mp (Plan.done.inj hq.symm)
      exact ⟨r, by rw [said_append]; exact List.getLast?_concat, hdenies⟩
    | _ => cases hq

theorem plain_exist : Plain (exist name) := by
  rw [exist_eq]
  refine .interruption fun why => ?_
  cases why with
  | some why => exact .done _
  | none =>
    dsimp only
    cases (Endpoint.lookUp name).request with
    | error fault => exact .done _
    | ok q =>
      refine .exchange fun x => ?_
      cases x <;> exact .done _

end Session

end MachineKeeper.Daemon
