/-
  MachineKeeper.Proofs.Daemon.Reply — what the daemon says, and what is said to it.

  What an answer amounts to is decided in several places: the status, the envelope, the code in
  it, and what the endpoint makes of the rest. Here each kind of answer is said in one go
  (`Reply.Carries`, `Reply.Denies`, `Exchange.Starts` and the like), and shown to be what the
  endpoints read.

  The requests of a valid instance name are written out, too. A request to wait for an operation
  is about that operation only if there is no `#` in its name: from there on a path is not sent.

  Proved:
  - `envelope_eq_ok_iff`, `denies_iff`: which replies are good, and which say that something is
    not there.
  - `greets_iff`, `reports_iff`, `starts_iff`, `succeeds_iff`: the answers a stage goes on with.
  - `valid_instancePath`: the name of an instance never spoils a path.
  - `waitRequest_eq_iff`, `waitRequest_eq_serverRequest_iff`: where a wait asks for something
    else.
-/

import Mathlib.Data.List.TakeWhile
import MachineKeeper.Daemon.Endpoint

namespace MachineKeeper.Daemon

/-! ## Replies -/

namespace Reply

variable {r : Reply} {e : Envelope}

/-- A good reply, with that in it. -/
structure Carries (r : Reply) (e : Envelope) : Prop where
  success : r.isSuccess
  readable : Envelope.codec.ofText r.body = .ok e
  fine : e.type ≠ "error"

/-- What a refusal counts as: the code in its envelope if there is one, or else the status of the reply. -/
def codeOf (r : Reply) (e : Envelope) : UInt16 := if e.errorCode ≠ 0 then e.errorCode else r.status

/-- The daemon says by a 404 that what was asked for is not there. -/
inductive Denies (r : Reply) : Prop
  | refused (e : Envelope) : Envelope.codec.ofText r.body = .ok e → e.type = "error" ∨ ¬r.isSuccess →
      r.codeOf e = 404 → Denies r
  | bare (fault : Json.Fault) : Envelope.codec.ofText r.body = .error fault → r.status = 404 → Denies r

theorem envelope_eq_ok_iff : r.envelope = .ok e ↔ r.Carries e := by
  unfold envelope
  constructor
  · intro h
    split at h
    · split at h <;> cases h
    · next e' hread =>
      split at h
      · cases h
      · next hgood =>
        cases h
        simp only [Bool.or_eq_true, decide_eq_true_eq, Bool.not_eq_true', not_or, Bool.not_eq_false] at hgood
        exact ⟨hgood.2, hread, hgood.1⟩
  · intro h
    simp [h.readable, h.fine, h.success]

theorem denies_iff : r.Denies ↔ ∃ fault, r.envelope = .error fault ∧ fault.isNotFound := by
  unfold envelope
  constructor
  · intro h
    cases h with
    | refused e hread hbad hcode =>
      refine ⟨.refused (r.codeOf e) e.error, ?_, by simp [ApiFault.isNotFound, hcode]⟩
      have hbad' : (decide (e.type = "error") || !r.isSuccess) = true := by simpa using hbad
      simp only [hread, hbad', if_true]
      rfl
    | bare fault hread hstatus =>
      have hbad : r.isSuccess = false := by simp [isSuccess, hstatus]
      refine ⟨.refused r.status (statusText r.status), ?_, by simp [ApiFault.isNotFound, hstatus]⟩
      simp [hread, hbad]
  · rintro ⟨fault, h, hnot⟩
    split at h
    · next cause hread =>
      split at h
      · cases h
        cases hnot
      · cases h
        exact .bare cause hread (by simpa [ApiFault.isNotFound] using hnot)
    · next e hread =>
      split at h
      · next hbad =>
        cases h
        exact .refused e hread (by simpa using hbad) (by simpa [ApiFault.isNotFound, codeOf] using hnot)
      · cases h

/-- A reply is not both. -/
theorem Carries.not_denies (h : r.Carries e) : ¬r.Denies := by
  rintro hdenies
  obtain ⟨fault, herror, -⟩ := denies_iff.mp hdenies
  rw [envelope_eq_ok_iff.mpr h] at herror
  cases herror

end Reply

namespace Exchange

def Carries (x : Exchange) (e : Envelope) : Prop := ∃ r, x = .reply r ∧ r.Carries e

/-- The handshake succeeds. -/
def Greets (x : Exchange) : Prop := ∃ e info, x.Carries e ∧ ServerInfo.codec.decode e.metadata = .ok info

/-- The state of an instance is reported. -/
def Reports (x : Exchange) (s : InstanceState) : Prop :=
  ∃ e, x.Carries e ∧ InstanceState.codec.decode e.metadata = .ok s

/-- A background operation is started. -/
def Starts (x : Exchange) (operation : String) : Prop :=
  ∃ e, x.Carries e ∧ e.type = "async" ∧ e.operation = operation ∧ operation ≠ ""

/-- An operation has ended well. -/
def Succeeds (x : Exchange) : Prop :=
  ∃ e result, x.Carries e ∧ OperationResult.codec.decode e.metadata = .ok result ∧ result.statusCode = 200

end Exchange

namespace Endpoint

variable {α : Type} {x : Exchange} {name operation : String}

theorem conclude_eq_ok_iff {e : Endpoint α} {a : α} :
    e.conclude x = .ok a ↔ ∃ envelope, x.Carries envelope ∧ e.read envelope = .ok a := by
  cases x with
  | dropped =>
    refine iff_of_false (fun h => by cases h) ?_
    rintro ⟨_, ⟨_, h, _⟩, _⟩
    cases h
  | reply r =>
    simp only [conclude, Exchange.Carries, Exchange.reply.injEq, exists_eq_left', ← Reply.envelope_eq_ok_iff]
    cases r.envelope with
    | error fault =>
      refine iff_of_false (fun h => by cases h) ?_
      rintro ⟨_, h, _⟩
      cases h
    | ok envelope =>
      constructor
      · exact fun h => ⟨envelope, rfl, h⟩
      · rintro ⟨_, h, hread⟩
        cases h
        exact hread

theorem decoded_eq_ok_iff {c : Json.Codec α} {e : Envelope} {a : α} : decoded c e = .ok a ↔ c.decode e.metadata = .ok a := by
  unfold decoded
  cases c.decode e.metadata <;> simp [Except.mapError]

theorem started_eq_ok_iff {e : Envelope} :
    started e = .ok operation ↔ e.type = "async" ∧ e.operation = operation ∧ operation ≠ "" := by
  unfold started
  split
  · next h =>
    refine iff_of_false (fun h => by cases h) ?_
    rintro ⟨htype, rfl, hsome⟩
    simp [htype, hsome] at h
  · next h =>
    simp only [Bool.or_eq_true, decide_eq_true_eq, not_or, ne_eq, Decidable.not_not] at h
    obtain ⟨htype, hsome⟩ := h
    constructor
    · intro heq
      cases heq
      exact ⟨htype, rfl, hsome⟩
    · rintro ⟨-, rfl, -⟩
      rfl

theorem greets_iff : x.Greets ↔ ∃ info, server.conclude x = .ok info := by
  simp only [conclude_eq_ok_iff, server, decoded_eq_ok_iff, Exchange.Greets]
  exact exists_comm

theorem reports_iff {s : InstanceState} : x.Reports s ↔ (state name).conclude x = .ok s := by
  simp only [conclude_eq_ok_iff, state, decoded_eq_ok_iff, Exchange.Reports]

theorem starts_iff {e : Endpoint String} (he : e.read = started) : x.Starts operation ↔ e.conclude x = .ok operation := by
  simp only [conclude_eq_ok_iff, he, started_eq_ok_iff, Exchange.Starts]

theorem succeeds_iff : x.Succeeds ↔ ∃ u, (wait operation).conclude x = .ok u := by
  have hread : ∀ e : Envelope, (∃ u, (wait operation).read e = .ok u) ↔
      ∃ result, OperationResult.codec.decode e.metadata = .ok result ∧ result.statusCode = 200 := by
    intro e
    simp only [← decoded_eq_ok_iff, wait, bind, Except.bind]
    cases decoded OperationResult.codec e with
    | error fault => simp
    | ok result => by_cases h : result.statusCode = 200 <;> simp [OperationResult.succeeded, h]
  simp only [conclude_eq_ok_iff, Exchange.Succeeds]
  constructor
  · rintro ⟨e, result, hcarries, hresult⟩
    obtain ⟨u, hu⟩ := (hread e).mpr ⟨result, hresult⟩
    exact ⟨u, e, hcarries, hu⟩
  · rintro ⟨u, e, hcarries, hu⟩
    obtain ⟨result, hresult⟩ := (hread e).mp ⟨u, hu⟩
    exact ⟨e, result, hcarries, hresult⟩

end Endpoint

/-- An answer names one operation. -/
theorem Exchange.Starts.unique {x : Exchange} {operation operation' : String} (h : x.Starts operation)
    (h' : x.Starts operation') : operation = operation' := by
  obtain ⟨e, ⟨_, rfl, hcarries⟩, -, rfl, -⟩ := h
  obtain ⟨e', ⟨_, hreply, hcarries'⟩, -, rfl, -⟩ := h'
  cases hreply
  cases hcarries.readable.symm.trans hcarries'.readable
  rfl

theorem Exchange.Reports.unique {x : Exchange} {s s' : InstanceState} (h : x.Reports s) (h' : x.Reports s') : s = s' := by
  have hstate : (Endpoint.state "").conclude x = .ok s := Endpoint.reports_iff.mp h
  exact Except.ok.inj (hstate.symm.trans (Endpoint.reports_iff.mp h'))

/-! ## Requests -/

namespace Path

theorem not_pathChar_hash {c : Char} (h : isPathChar c = true) : c ≠ '#' ∧ c ≠ '?' := by
  constructor <;> rintro rfl <;> revert h <;> decide

/-- A path without a query or anything behind a `#`. -/
theorem valid_of_pathChars {path : String} (hhead : path.toList.head? = some '/')
    (h : ∀ c ∈ path.toList, isPathChar c = true) : sent path = path ∧ valid path = true := by
  have hsent : sent path = path := by
    have : path.toList.takeWhile (· ≠ '#') = path.toList :=
      List.takeWhile_eq_self_iff.mpr fun c hc => by simpa using (not_pathChar_hash (h c hc)).1
    rw [sent, this, String.ofList_toList]
  have hquery : ∀ c ∈ path.toList, (decide (c ≠ '?')) = true := fun c hc => by simpa using (not_pathChar_hash (h c hc)).2
  have htake : path.toList.takeWhile (· ≠ '?') = path.toList := List.takeWhile_eq_self_iff.mpr hquery
  have hdrop : path.toList.dropWhile (· ≠ '?') = [] := List.dropWhile_eq_nil_iff.mpr hquery
  refine ⟨hsent, ?_⟩
  simp only [valid, hsent, hhead, htake, hdrop, List.drop_nil, List.all_nil, List.all_eq_true.mpr h]
  decide

theorem toNat_of_isAlphanum {c : Char} (h : c.isAlphanum = true) :
    ((65 ≤ c.toNat ∧ c.toNat ≤ 90) ∨ 97 ≤ c.toNat ∧ c.toNat ≤ 122) ∨ 48 ≤ c.toNat ∧ c.toNat ≤ 57 := by
  have hcode : (decide (65 ≤ c.val ∧ c.val ≤ 90) || (decide (97 ≤ c.val) && decide (c.val ≤ 122)) ||
    (decide (48 ≤ c.val) && decide (c.val ≤ 57))) = true := h
  simp only [Bool.or_eq_true, Bool.and_eq_true, decide_eq_true_eq] at hcode
  exact hcode

theorem isPathChar_of_isLabelChar {c : Char} (h : isLabelChar c = true) : isPathChar c = true := by
  simp only [isLabelChar, Bool.or_eq_true, beq_iff_eq] at h
  simp only [isPathChar, Bool.or_eq_true, decide_eq_true_eq, beq_iff_eq, Bool.and_eq_true]
  rcases h with h | rfl
  · have hrange := toNat_of_isAlphanum h
    refine .inl (.inl (.inl (.inl (.inl ?_))))
    omega
  · decide

/-- The path of an instance, or of something that belongs to it, is sent as it is. -/
theorem valid_instancePath {name behind : String} (hname : validName name = true)
    (hbehind : behind.toList.all isPathChar = true) :
    let path := "/1.0/instances/" ++ name ++ behind
    sent path = path ∧ valid path = true := by
  have hlabel : ∀ c ∈ name.toList, isLabelChar c = true := by
    simp only [validName, Bool.and_eq_true, List.all_eq_true] at hname
    exact hname.1.1.1.2
  have hfront : "/1.0/instances/".toList.all isPathChar = true := by decide
  refine valid_of_pathChars ?_ fun c hc => ?_
  · rw [String.append_assoc, String.toList_append]
    rfl
  · simp only [String.toList_append, List.mem_append] at hc
    rcases hc with (hc | hc) | hc
    · exact List.all_eq_true.mp hfront c hc
    · exact isPathChar_of_isLabelChar (hlabel c hc)
    · exact List.all_eq_true.mp hbehind c hc

/-- A path is sent as it is unless there is a `#` in it. -/
theorem sent_eq_iff {path : String} : sent path = path ↔ '#' ∉ path.toList := by
  have hsent : sent path = path ↔ path.toList.takeWhile (· ≠ '#') = path.toList := by
    rw [← String.toList_inj, sent, String.toList_ofList]
  rw [hsent, List.takeWhile_eq_self_iff]
  constructor
  · intro h hmem
    simpa using h '#' hmem
  · intro h c hc
    simp only [ne_eq, decide_eq_true_eq]
    rintro rfl
    exact h hc

/-- From a `#` on nothing is sent. -/
theorem sent_append {path behind : String} {front rest : List Char} (h : path.toList = front ++ '#' :: rest)
    (hfront : '#' ∉ front) : sent (path ++ behind) = String.ofList front := by
  have hplain : ∀ c ∈ front, decide (c ≠ '#') = true := by
    intro c hc
    simp only [ne_eq, decide_eq_true_eq]
    rintro rfl
    exact hfront hc
  rw [sent, String.toList_append, h, List.append_assoc, List.takeWhile_append_of_pos hplain]
  simp

end Path

/-- The handshake. -/
def serverRequest : Request := ⟨.get, "/1.0", none⟩

def lookUpRequest (name : String) : Request := ⟨.get, "/1.0/instances/" ++ name, none⟩

def stateRequest (name : String) : Request := ⟨.get, "/1.0/instances/" ++ name ++ "/state", none⟩

def createRequest (r : InstanceRequest) : Request := ⟨.post, "/1.0/instances", some (creation r)⟩

def stopRequest (name : String) : Request := ⟨.put, "/1.0/instances/" ++ name ++ "/state", some forcedStop⟩

def deleteRequest (name : String) : Request := ⟨.delete, "/1.0/instances/" ++ name, none⟩

/-- The request for the end of an operation. -/
def waitRequest (operation : String) : Request := ⟨.get, Path.sent (operation ++ "/wait"), none⟩

/-- It asks for the end of that operation, unless the `#` in its name cuts the question off. -/
theorem waitRequest_eq_iff {operation : String} :
    waitRequest operation = ⟨.get, operation ++ "/wait", none⟩ ↔ '#' ∉ operation.toList := by
  have hwait : '#' ∉ "/wait".toList := by decide
  simp only [waitRequest, Request.mk.injEq, true_and, and_true]
  rw [Path.sent_eq_iff, String.toList_append, List.mem_append, or_iff_left hwait]

/-- A wait looks like a handshake for the operations of such a name. -/
theorem waitRequest_eq_serverRequest_iff {operation : String} :
    waitRequest operation = serverRequest ↔ ∃ rest, operation = "/1.0#" ++ rest := by
  have hpath : waitRequest operation = serverRequest ↔ Path.sent (operation ++ "/wait") = "/1.0" := by
    simp [waitRequest, serverRequest]
  rw [hpath]
  constructor
  · intro h
    by_cases hmem : '#' ∈ operation.toList
    · obtain ⟨front, rest, hsplit, hfront⟩ := List.eq_append_cons_of_mem hmem
      rw [Path.sent_append hsplit hfront] at h
      refine ⟨String.ofList rest, ?_⟩
      rw [← String.toList_inj, hsplit, ← String.toList_ofList (l := front), h]
      simp only [String.toList_append, String.toList_ofList]
      rfl
    · -- a path that is sent whole ends as it was asked for
      have hpath : operation ++ "/wait" = "/1.0" := (congrArg Request.path (waitRequest_eq_iff.mpr hmem)).symm.trans h
      have hlast := congrArg (fun path => path.toList.getLast?) hpath
      simp only [String.toList_append, List.getLast?_append] at hlast
      have hends : some 't' = some '0' := hlast
      cases hends
  · rintro ⟨rest, rfl⟩
    have hsplit : ("/1.0#" ++ rest).toList = "/1.0".toList ++ '#' :: rest.toList := by
      rw [String.toList_append]
      rfl
    rw [Path.sent_append hsplit (by decide), String.ofList_toList]


namespace Endpoint

section

variable {name : String}

theorem requestTo_instance (hname : validName name = true) (method : Method) (behind : String)
    (hbehind : behind.toList.all Path.isPathChar = true) (body : Option Json) :
    (instancePath name behind >>= fun path => requestTo method path body) =
      .ok ⟨method, "/1.0/instances/" ++ name ++ behind, body⟩ := by
  obtain ⟨hsent, hvalid⟩ := Path.valid_instancePath hname hbehind
  simp only [instancePath, if_pos hname, bind, Except.bind]
  rw [requestTo, if_pos hvalid, hsent]

/-- No path is made of another name. -/
theorem requestTo_instance_of_not (hname : validName name ≠ true) (method : Method) (behind : String) (body : Option Json) :
    (instancePath name behind >>= fun path => requestTo method path body) = .error (.invalidName name) := by
  rw [instancePath, if_neg hname]
  rfl

theorem server_request : server.request = .ok serverRequest := rfl

theorem lookUp_request (hname : validName name = true) : (lookUp name).request = .ok (lookUpRequest name) := by
  have h := requestTo_instance hname .get "" (by decide) none
  rwa [String.append_empty] at h

theorem lookUp_request_of_not (hname : validName name ≠ true) : (lookUp name).request = .error (.invalidName name) :=
  requestTo_instance_of_not hname .get "" none

theorem state_request (hname : validName name = true) : (state name).request = .ok (stateRequest name) :=
  requestTo_instance hname .get "/state" (by decide) none

theorem state_request_of_not (hname : validName name ≠ true) : (state name).request = .error (.invalidName name) :=
  requestTo_instance_of_not hname .get "/state" none

theorem forceStop_request (hname : validName name = true) : (forceStop name).request = .ok (stopRequest name) :=
  requestTo_instance hname .put "/state" (by decide) (some forcedStop)

theorem delete_request (hname : validName name = true) : (delete name).request = .ok (deleteRequest name) := by
  have h := requestTo_instance hname .delete "" (by decide) none
  rwa [String.append_empty] at h

theorem create_request_eq_ok_iff {r : InstanceRequest} {q : Request} :
    (create r).request = .ok q ↔ validName r.name = true ∧ q = createRequest r := by
  by_cases hname : validName r.name = true
  · have hcreate : (create r).request = .ok (createRequest r) := by
      rw [create, if_pos hname]
      rfl
    rw [hcreate, Except.ok.injEq, and_iff_right hname]
    exact eq_comm
  · rw [create, if_neg hname]
    exact iff_of_false (fun h => nomatch h) fun h => hname h.1

/-- The end of an operation is not asked for where that would be no path. -/
theorem wait_request_eq_ok_iff {operation : String} {q : Request} :
    (wait operation).request = .ok q ↔ Path.valid (operation ++ "/wait") = true ∧ q = waitRequest operation := by
  rw [wait, requestTo]
  split
  · next h =>
    rw [Except.ok.injEq, and_iff_right h]
    exact eq_comm
  · next h => exact iff_of_false (fun h => nomatch h) fun h' => h h'.1

end

end Endpoint

end MachineKeeper.Daemon
