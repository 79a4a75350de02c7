/-
  MachineKeeper.Proofs.Daemon.Operations — how an instance is created, and how it is deleted.

  Either is a protocol of its own (`createProtocol`, `deleteProtocol`), written down from what
  has been said so far and without a look at the plans. A daemon may answer anything at any
  stage, and the context may end anywhere.

  The operations are the daemon's to name. A name is checked for what may stand in a path, but
  only as far as it is sent: with a `#` in it the wait is for whatever comes before, and the
  answer counts as that of the operation (`create_waits_for_another`,
  `delete_waits_for_another`).

  Proved:
  - `create_kept`: one request for the instance, one wait, and success only where the daemon has
    confirmed it.
  - `delete_kept`: look, stop if need be, delete, each only after the one before; and the request
    to delete only for an instance that is stopped.
-/

import MachineKeeper.Proofs.Daemon.Stages

namespace MachineKeeper.Daemon

/-! ## Creating -/

inductive CreateStage (r : InstanceRequest) : List Said → String → Except ApiFault Request → (Exchange → Prop) → Prop
  | post : CreateStage r [] "request rejected" (Endpoint.create r).request fun x => ∃ operation, x.Starts operation
  | wait {x : Exchange} {operation : String} : x.Starts operation →
      CreateStage r [(createRequest r, .ok x)] "provisioning failed" (Endpoint.wait operation).request Exchange.Succeeds

/-- The daemon has said that the instance is there. -/
inductive Created (r : InstanceRequest) : List Said → Prop
  | confirmed {x y : Exchange} {operation : String} : x.Starts operation → y.Succeeds →
      Created r [(createRequest r, .ok x), (waitRequest operation, .ok y)]

def createProtocol (r : InstanceRequest) : Protocol where
  Enters := CreateStage r
  Complete := Created r
  blame stage reason := .create r.name (stage ++ ": " ++ reason)

/-- What can have been said of an instance that is to be created. -/
inductive CreateSaid (r : InstanceRequest) : List Said → Prop
  | nothing : CreateSaid r []
  | posted (a : Except Interruption Exchange) : validName r.name = true → CreateSaid r [(createRequest r, a)]
  | awaited {x : Exchange} {operation : String} (a : Except Interruption Exchange) : validName r.name = true →
      x.Starts operation → Path.valid (operation ++ "/wait") = true →
      CreateSaid r [(createRequest r, .ok x), (waitRequest operation, a)]

variable {r : InstanceRequest} {path : String} {tr : SessionTrace} {q : SessionPlan (Except BackendFault Unit)}

theorem lawful_create : (createProtocol r).Lawful where
  nothing := by rintro ⟨⟩
  entered := by
    rintro l name request good henters hcreated
    cases henters <;> cases hcreated
  finished := by
    rintro l name q good y henters hcreated
    generalize Except.ok q = request at henters
    cases henters with
    | post => cases hcreated
    | wait hstarts =>
      cases hcreated with
      | confirmed _ hsucceeds => exact ⟨_, rfl, hsucceeds⟩
  interrupted _ _ _ h := nomatch h
  connection _ _ _ h := nomatch h

theorem plans_create : (createProtocol r).Plans [] (Session.create r) := by
  refine .stage CreateStage.post (fun x => exists_congr fun operation => Endpoint.starts_iff rfl) ?_
  rintro q x operation hq hx
  obtain ⟨-, rfl⟩ := Endpoint.create_request_eq_ok_iff.mp hq
  refine .stage (.wait ((Endpoint.starts_iff rfl).mpr hx)) (fun y => Endpoint.succeeds_iff) ?_
  rintro q y u hq hy
  obtain ⟨-, rfl⟩ := Endpoint.wait_request_eq_ok_iff.mp hq
  exact .complete (.confirmed ((Endpoint.starts_iff rfl).mpr hx) (Endpoint.succeeds_iff.mpr ⟨u, hy⟩))

theorem plain_create : Session.Plain (Session.create r) := by
  unfold Session.create
  exact .stage fun operation => .stage fun _ => .done _

theorem createSaid_of_talk {l : List Said} (h : (createProtocol r).Talk l) : CreateSaid r l := by
  have hlast : ∀ {l name q good} (a : Except Interruption Exchange), (createProtocol r).Passed l →
      (createProtocol r).Enters l name (.ok q) good → CreateSaid r (l ++ [(q, a)]) := by
    intro l name q good a hpassed henters
    generalize hrequest : Except.ok q = request at henters
    cases henters with
    | post =>
      obtain ⟨hname, rfl⟩ := Endpoint.create_request_eq_ok_iff.mp hrequest.symm
      exact .posted a hname
    | wait hstarts =>
      obtain ⟨hpath, rfl⟩ := Endpoint.wait_request_eq_ok_iff.mp hrequest.symm
      obtain ⟨name, good, -, hpost, -⟩ := hpassed.entry (List.nil_append _).symm
      generalize hrequest : Except.ok (createRequest r) = request at hpost
      cases hpost
      exact .awaited a (Endpoint.create_request_eq_ok_iff.mp hrequest.symm).1 hstarts hpath
  cases h with
  | passed hpassed =>
    cases hpassed with
    | nil => exact .nothing
    | snoc hpassed henters hgood => exact hlast _ hpassed henters
  | last y hpassed henters => exact hlast y hpassed henters

/-- An instance is asked for once, and at most one wait follows, for the operation the daemon has named; but a name with
a `#` in it is cut off there. The call succeeds only if the daemon has confirmed the end of the operation. -/
theorem create_kept (h : (Session.plan path (.create r)).Leaves tr q) :
    ∃ hello l, (createProtocol r).Kept tr q hello l ∧ CreateSaid r l ∧
      ∀ x operation wait a, x.Starts operation → l = [(createRequest r, .ok x), (wait, a)] →
        (wait = ⟨.get, operation ++ "/wait", none⟩ ↔ '#' ∉ operation.toList) := by
  obtain ⟨hello, l, hkept⟩ := plans_create.kept lawful_create plain_create h
  have hsaid := createSaid_of_talk hkept.talk
  refine ⟨hello, l, hkept, hsaid, fun x operation wait a hstarts hl => ?_⟩
  subst hl
  cases hsaid with
  | awaited _ _ hnamed _ =>
    cases hstarts.unique hnamed
    exact waitRequest_eq_iff

/-! A daemon that accepts a request and finishes it, for the runs below. -/

/-- The daemon has begun to work on it. -/
def accepting (operation : String) : Exchange :=
  .reply ⟨202, "\x7b\"type\":\"async\",\"operation\":\"" ++ operation ++ "\"\x7d"⟩

def finished : Exchange :=
  .reply ⟨200, "\x7b\"type\":\"sync\",\"metadata\":\x7b\"status_code\":200\x7d\x7d"⟩

theorem accepting_starts : (accepting "/1.0/operations/o").Starts "/1.0/operations/o" :=
  (Endpoint.starts_iff (e := Endpoint.delete "") rfl).mpr (by decide +kernel)

theorem accepting_starts_hash : (accepting "/1.0/operations/o#").Starts "/1.0/operations/o#" :=
  (Endpoint.starts_iff (e := Endpoint.delete "") rfl).mpr (by decide +kernel)

theorem finished_succeeds : finished.Succeeds :=
  Endpoint.succeeds_iff.mpr ⟨(), show (Endpoint.wait "").conclude finished = .ok () by decide +kernel⟩

theorem finished_conclude {operation : String} : (Endpoint.wait operation).conclude finished = .ok () := by
  obtain ⟨u, hu⟩ := Endpoint.succeeds_iff.mp finished_succeeds
  exact hu

def web : InstanceRequest := ⟨"web", "ubuntu", 2, 2048, none⟩

/-- All goes well, in a session that is open. -/
def smoothCreate (operation : String) : SessionTrace :=
  [⟨.connected, true⟩, ⟨.interruption, none⟩, ⟨.exchange (createRequest web), .ok (accepting operation)⟩,
    ⟨.interruption, none⟩, ⟨.exchange (waitRequest operation), .ok finished⟩]

theorem leaves_smoothCreate {operation : String} (hstarts : (accepting operation).Starts operation)
    (hpath : Path.valid (operation ++ "/wait") = true) :
    (Session.plan path (.create web)).Leaves (smoothCreate operation) (.done (.ok ())) := by
  have hcreate : (Endpoint.create web).request = .ok (createRequest web) :=
    Endpoint.create_request_eq_ok_iff.mpr ⟨by decide, rfl⟩
  have hwait := Endpoint.wait_request_eq_ok_iff.mpr ⟨hpath, rfl⟩
  have hstarted : (Endpoint.create web).conclude (accepting operation) = .ok operation := (Endpoint.starts_iff rfl).mp hstarts
  refine Session.leaves_within ?_
  rw [Session.create]
  exact Session.leaves_stage hcreate hstarted (Session.leaves_stage hwait finished_conclude (.here _))

theorem create_kept_smooth :
    let tr := smoothCreate "/1.0/operations/o"
    (Session.plan "" (.create web)).Leaves tr (.done (.ok ())) ∧ ∃ hello l,
      (createProtocol web).Kept tr (.done (.ok ())) hello l ∧ CreateSaid web l ∧
      ∀ x operation wait a, x.Starts operation → l = [(createRequest web, .ok x), (wait, a)] →
        (wait = ⟨.get, operation ++ "/wait", none⟩ ↔ '#' ∉ operation.toList) := by
  have h : (Session.plan "" (.create web)).Leaves (smoothCreate "/1.0/operations/o") (.done (.ok ())) :=
    leaves_smoothCreate accepting_starts (by decide)
  exact ⟨h, create_kept h⟩

/-- The daemon names an operation with a `#`: the wait asks for something else, and its answer is taken for that of the
operation. -/
theorem create_waits_for_another :
    let tr := smoothCreate "/1.0/operations/o#"
    (Session.plan "" (.create web)).Leaves tr (.done (.ok ())) ∧
      (accepting "/1.0/operations/o#").Starts "/1.0/operations/o#" ∧
      said tr = [(createRequest web, .ok (accepting "/1.0/operations/o#")), (⟨.get, "/1.0/operations/o", none⟩, .ok finished)] :=
  ⟨leaves_smoothCreate accepting_starts_hash (by decide), accepting_starts_hash, rfl⟩

/-! ## Deleting -/

/-- The instance is stopped: it was to begin with, or the daemon has confirmed it. -/
inductive Stopped (name : String) : List Said → Prop
  | already {x : Exchange} {s : InstanceState} : x.Reports s → s.isStopped = true → Stopped name [(stateRequest name, .ok x)]
  | forced {x y z : Exchange} {s : InstanceState} {operation : String} : x.Reports s → s.isStopped = false →
      y.Starts operation → z.Succeeds →
      Stopped name [(stateRequest name, .ok x), (stopRequest name, .ok y), (waitRequest operation, .ok z)]

inductive DeleteStage (name : String) : List Said → String → Except ApiFault Request → (Exchange → Prop) → Prop
  | state : DeleteStage name [] "reading state" (.ok (stateRequest name)) fun x => ∃ s, x.Reports s
  | stop {x : Exchange} {s : InstanceState} : x.Reports s → s.isStopped = false →
      DeleteStage name [(stateRequest name, .ok x)] "stop rejected" (.ok (stopRequest name))
        fun y => ∃ operation, y.Starts operation
  | stopWait {x y : Exchange} {s : InstanceState} {operation : String} : x.Reports s → s.isStopped = false →
      y.Starts operation →
      DeleteStage name [(stateRequest name, .ok x), (stopRequest name, .ok y)] "stop failed" (Endpoint.wait operation).request
        Exchange.Succeeds
  | delete {l : List Said} : Stopped name l →
      DeleteStage name l "request rejected" (.ok (deleteRequest name)) fun x => ∃ operation, x.Starts operation
  | deleteWait {l : List Said} {x : Exchange} {operation : String} : Stopped name l → x.Starts operation →
      DeleteStage name (l ++ [(deleteRequest name, .ok x)]) "deletion failed" (Endpoint.wait operation).request
        Exchange.Succeeds

/-- The daemon has confirmed that the instance is gone. -/
inductive Deleted (name : String) : List Said → Prop
  | confirmed {l : List Said} {x y : Exchange} {operation : String} : Stopped name l → x.Starts operation → y.Succeeds →
      Deleted name (l ++ [(deleteRequest name, .ok x), (waitRequest operation, .ok y)])

def deleteProtocol (name : String) : Protocol where
  Enters := DeleteStage name
  Complete := Deleted name
  blame stage reason := .delete name (stage ++ ": " ++ reason)

/-- All that is asked for, in this order, of an instance that is to be deleted, with the operation of the stop if it has
to be stopped. -/
def deleteOrder (name : String) (stop : Option String) (operation : String) : List Request :=
  let stopping := match stop with
    | none => []
    | some operation => [stopRequest name, waitRequest operation]
  stateRequest name :: stopping ++ [deleteRequest name, waitRequest operation]

section

variable {name : String} {l : List Said}

def methods (l : List Said) : List Method := l.map fun s => s.1.method

theorem Stopped.methods (h : Stopped name l) : methods l = [.get] ∨ methods l = [.get, .put, .get] := by
  cases h with
  | already _ _ => exact .inl rfl
  | forced _ _ _ _ => exact .inr rfl

theorem methods_append (l l' : List Said) : methods (l ++ l') = methods l ++ methods l' := List.map_append

theorem Deleted.methods (h : Deleted name l) :
    methods l = [.get, .delete, .get] ∨ methods l = [.get, .put, .get, .delete, .get] := by
  cases h with
  | confirmed hstopped _ _ =>
    rw [methods_append]
    rcases hstopped.methods with h | h <;> rw [h]
    · exact .inl rfl
    · exact .inr rfl

/-- What the daemon has begun is waited for. -/
theorem DeleteStage.awaits {r : Request} {x : Exchange} {operation stage : String} {request : Except ApiFault Request}
    {good : Exchange → Prop} (h : DeleteStage name (l ++ [(r, .ok x)]) stage request good) (hr : r.method ≠ .get)
    (hx : x.Starts operation) : request = (Endpoint.wait operation).request ∧ good = Exchange.Succeeds := by
  generalize hl : l ++ [(r, .ok x)] = l' at h
  have hlast : l'.getLast? = some (r, .ok x) := by rw [← hl, List.getLast?_concat]
  cases h with
  | state => cases hlast
  | stop _ _ =>
    cases hlast
    exact absurd rfl hr
  | stopWait _ _ hstarts =>
    cases hlast
    cases hx.unique hstarts
    exact ⟨rfl, rfl⟩
  | delete hstopped =>
    cases hstopped with
    | already _ _ =>
      cases hlast
      exact absurd rfl hr
    | forced _ _ _ _ =>
      cases hlast
      exact absurd rfl hr
  | deleteWait _ hstarts =>
    rw [List.getLast?_concat] at hlast
    cases hlast
    cases hx.unique hstarts
    exact ⟨rfl, rfl⟩

theorem lawful_delete : (deleteProtocol name).Lawful where
  nothing h := by rcases Deleted.methods h with h | h <;> cases h
  entered := by
    rintro l stage request good henters hdeleted
    -- no stage is entered after as many requests as that
    have hmethods := Deleted.methods hdeleted
    cases henters with
    | state | stop _ _ | stopWait _ _ _ => rcases hmethods with h | h <;> cases h
    | delete hstopped => rcases hstopped.methods with h | h <;> rw [h] at hmethods <;> simp at hmethods
    | deleteWait hstopped hstarts =>
      rw [methods_append] at hmethods
      rcases hstopped.methods with h | h <;> rw [h] at hmethods <;> simp [methods, deleteRequest] at hmethods
  finished := by
    rintro l stage request good y henters hdeleted
    generalize hl : l ++ [(request, y)] = l' at hdeleted
    cases hdeleted with
    | @confirmed l' x y' operation hstopped hstarts hsucceeds =>
      rw [List.append_cons l'] at hl
      obtain ⟨rfl, hlast⟩ := List.append_inj' hl rfl
      cases hlast
      obtain ⟨-, rfl⟩ := DeleteStage.awaits henters (fun h => nomatch h) hstarts
      exact ⟨y', rfl, hsucceeds⟩
  interrupted _ _ _ h := nomatch h
  connection _ _ _ h := nomatch h

theorem plans_delete (hname : validName name = true) : (deleteProtocol name).Plans [] (Session.delete name) := by
  have hremove : ∀ {l}, Stopped name l → (deleteProtocol name).Plans l
      (Session.stage (Endpoint.delete name) ((deleteProtocol name).blame "request rejected") fun operation =>
        Session.stage (Endpoint.wait operation) ((deleteProtocol name).blame "deletion failed") fun _ => .done (.ok ())) := by
    intro l hstopped
    refine .stage (Endpoint.delete_request hname ▸ .delete hstopped)
      (fun x => exists_congr fun operation => Endpoint.starts_iff rfl) ?_
    rintro q x operation hq hx
    cases (Endpoint.delete_request hname).symm.trans hq
    have hstarts := (Endpoint.starts_iff rfl).mpr hx
    refine .stage (.deleteWait hstopped hstarts) (fun y => Endpoint.succeeds_iff) ?_
    rintro q y u hq hy
    obtain ⟨-, rfl⟩ := Endpoint.wait_request_eq_ok_iff.mp hq
    rw [List.append_assoc]
    exact .complete (.confirmed hstopped hstarts (Endpoint.succeeds_iff.mpr ⟨u, hy⟩))
  refine .stage (Endpoint.state_request hname ▸ .state) (fun x => exists_congr fun s => Endpoint.reports_iff) ?_
  rintro q x s hq hx
  cases (Endpoint.state_request hname).symm.trans hq
  have hreports : x.Reports s := Endpoint.reports_iff.mpr hx
  cases hs : s.isStopped with
  | true =>
    simp only [if_true]
    exact hremove (.already hreports hs)
  | false =>
    simp only [Bool.false_eq_true, if_false]
    refine .stage (Endpoint.forceStop_request hname ▸ .stop hreports hs)
      (fun y => exists_congr fun operation => Endpoint.starts_iff rfl) ?_
    rintro q y operation hq hy
    cases (Endpoint.forceStop_request hname).symm.trans hq
    have hstarts := (Endpoint.starts_iff rfl).mpr hy
    refine .stage (.stopWait hreports hs hstarts) (fun z => Endpoint.succeeds_iff) ?_
    rintro q z u hq hz
    obtain ⟨-, rfl⟩ := Endpoint.wait_request_eq_ok_iff.mp hq
    exact hremove (.forced hreports hs hstarts (Endpoint.succeeds_iff.mpr ⟨u, hz⟩))

theorem plain_delete : Session.Plain (Session.delete name) := by
  have hremove : Session.Plain (Session.stage (Endpoint.delete name) ((deleteProtocol name).blame "request rejected")
      fun operation => Session.stage (Endpoint.wait operation) ((deleteProtocol name).blame "deletion failed")
        fun _ => .done (.ok ())) := .stage fun _ => .stage fun _ => .done _
  unfold Session.delete
  refine .stage fun s => ?_
  split
  · exact hremove
  · exact .stage fun operation => .stage fun _ => hremove

theorem DeleteStage.in_order {stage : String} {q : Request} {good : Exchange → Prop}
    (h : DeleteStage name l stage (.ok q) good) (a : Except Interruption Exchange) :
    ∃ stop operation, (l ++ [(q, a)]).map Prod.fst <+: deleteOrder name stop operation := by
  generalize hrequest : Except.ok q = request at h
  cases h with
  | state =>
    cases hrequest
    exact ⟨none, "", _, rfl⟩
  | stop _ _ =>
    cases hrequest
    exact ⟨some "", "", _, rfl⟩
  | @stopWait _ _ _ operation _ _ _ =>
    obtain ⟨-, rfl⟩ := Endpoint.wait_request_eq_ok_iff.mp hrequest.symm
    exact ⟨some operation, "", _, rfl⟩
  | delete hstopped =>
    cases hrequest
    cases hstopped with
    | already _ _ => exact ⟨none, "", _, rfl⟩
    | @forced _ _ _ _ operation _ _ _ _ => exact ⟨some operation, "", _, rfl⟩
  | @deleteWait _ _ operation hstopped _ =>
    obtain ⟨-, rfl⟩ := Endpoint.wait_request_eq_ok_iff.mp hrequest.symm
    cases hstopped with
    | already _ _ => exact ⟨none, operation, [], rfl⟩
    | @forced _ _ _ _ stopped _ _ _ _ => exact ⟨some stopped, operation, [], rfl⟩

theorem in_order_of_talk (h : (deleteProtocol name).Talk l) :
    ∃ stop operation, l.map Prod.fst <+: deleteOrder name stop operation := by
  cases h with
  | passed hpassed =>
    cases hpassed with
    | nil => exact ⟨none, "", List.nil_prefix⟩
    | snoc _ henters _ => exact DeleteStage.in_order henters _
  | last a _ henters => exact DeleteStage.in_order henters a

/-- Once its state is known, an instance is either stopped or deleted. -/
theorem DeleteStage.behind_state {x : Exchange} {s : InstanceState} {stage : String} {q : Request} {good : Exchange → Prop}
    (h : DeleteStage name [(stateRequest name, .ok x)] stage (.ok q) good) (hx : x.Reports s) :
    q = if s.isStopped then deleteRequest name else stopRequest name := by
  generalize hl : [(stateRequest name, Except.ok x)] = l at h
  generalize hrequest : Except.ok q = request at h
  cases h with
  | state => cases hl
  | stop hreports hs =>
    cases hl
    cases hx.unique hreports
    cases hrequest
    rw [hs]
    rfl
  | stopWait _ _ _ => cases hl
  | delete hstopped =>
    cases hstopped with
    | already hreports hs =>
      cases hl
      cases hx.unique hreports
      cases hrequest
      rw [hs]
      rfl
    | forced _ _ _ _ => cases hl
  | deleteWait hstopped _ =>
    have hmethods := congrArg methods hl
    rw [methods_append] at hmethods
    rcases hstopped.methods with h | h <;> rw [h] at hmethods <;> cases hmethods

theorem DeleteStage.stopped {stage : String} {good : Exchange → Prop}
    (h : DeleteStage name l stage (.ok (deleteRequest name)) good) : Stopped name l := by
  have hnoWait : ∀ {operation}, Except.ok (deleteRequest name) ≠ (Endpoint.wait operation).request := by
    intro operation hrequest
    have := (Endpoint.wait_request_eq_ok_iff.mp hrequest.symm).2
    cases congrArg Request.method this
  generalize hrequest : Except.ok (deleteRequest name) = request at h
  cases h with
  | state => cases hrequest
  | stop _ _ => cases hrequest
  | stopWait _ _ _ => exact absurd hrequest hnoWait
  | delete hstopped => exact hstopped
  | deleteWait _ _ => exact absurd hrequest hnoWait

/-- An instance is deleted in the order above, as far as all goes well, and only once it is stopped. A wait is for the
operation the daemon has named, but for a `#` in its name. The call succeeds only if the daemon has confirmed that the
instance is gone. -/
theorem delete_kept (hname : validName name = true) (h : (Session.plan path (.delete name)).Leaves tr q) :
    ∃ hello l, (deleteProtocol name).Kept tr q hello l ∧ (deleteProtocol name).Gated l ∧
      (∃ stop operation, l.map Prod.fst <+: deleteOrder name stop operation) ∧
      (∀ x s e rest, x.Reports s → l = (stateRequest name, .ok x) :: e :: rest →
        e.1 = if s.isStopped then deleteRequest name else stopRequest name) ∧
      (∀ before x after, l = before ++ (deleteRequest name, x) :: after → Stopped name before) ∧
      ∀ before request x operation wait a after, request.method ≠ .get → x.Starts operation →
        l = before ++ (request, .ok x) :: (wait, a) :: after →
        (wait = ⟨.get, operation ++ "/wait", none⟩ ↔ '#' ∉ operation.toList) := by
  obtain ⟨hello, l, hkept⟩ := (plans_delete hname).kept lawful_delete plain_delete h
  have hgated := hkept.talk.gated
  refine ⟨hello, l, hkept, hgated, in_order_of_talk hkept.talk, ?_, ?_, ?_⟩
  · rintro x s ⟨q, y⟩ rest hreports hl
    obtain ⟨stage, good, henters, -⟩ := hgated [_] q y rest hl
    exact DeleteStage.behind_state henters hreports
  · rintro before x after hl
    obtain ⟨stage, good, henters, -⟩ := hgated before _ x after hl
    exact DeleteStage.stopped henters
  · rintro before request x operation wait a after hrequest hstarts hl
    rw [List.append_cons] at hl
    obtain ⟨stage, good, henters, -⟩ := hgated _ wait a after hl
    obtain ⟨hwait, -⟩ := DeleteStage.awaits henters hrequest hstarts
    obtain ⟨-, rfl⟩ := Endpoint.wait_request_eq_ok_iff.mp hwait.symm
    exact waitRequest_eq_iff

/-! The instance runs, and all goes well. -/

def running : Exchange :=
  .reply ⟨200, "\x7b\"type\":\"sync\",\"metadata\":\x7b\"status\":\"Running\"\x7d\x7d"⟩

theorem running_reports : running.Reports ⟨"Running"⟩ :=
  Endpoint.reports_iff.mpr (show (Endpoint.state "").conclude running = .ok ⟨"Running"⟩ by decide +kernel)

def smoothDelete (operation : String) : SessionTrace :=
  [⟨.connected, true⟩, ⟨.interruption, none⟩, ⟨.exchange (stateRequest "web"), .ok running⟩,
    ⟨.interruption, none⟩, ⟨.exchange (stopRequest "web"), .ok (accepting "/1.0/operations/o")⟩,
    ⟨.interruption, none⟩, ⟨.exchange (waitRequest "/1.0/operations/o"), .ok finished⟩,
    ⟨.interruption, none⟩, ⟨.exchange (deleteRequest "web"), .ok (accepting operation)⟩,
    ⟨.interruption, none⟩, ⟨.exchange (waitRequest operation), .ok finished⟩]

theorem leaves_smoothDelete {operation : String} (hstarts : (accepting operation).Starts operation)
    (hpath : Path.valid (operation ++ "/wait") = true) :
    (Session.plan path (.delete "web")).Leaves (smoothDelete operation) (.done (.ok ())) := by
  have hname : validName "web" = true := by decide
  have hstarted : ∀ {operation} {e : Endpoint String}, e.read = Endpoint.started → (accepting operation).Starts operation →
      e.conclude (accepting operation) = .ok operation := fun he h => (Endpoint.starts_iff he).mp h
  have hstop : (Endpoint.wait "/1.0/operations/o").request = .ok (waitRequest "/1.0/operations/o") :=
    Endpoint.wait_request_eq_ok_iff.mpr ⟨by decide, rfl⟩
  have hdelete := Endpoint.wait_request_eq_ok_iff.mpr ⟨hpath, rfl⟩
  refine Session.leaves_within ?_
  rw [Session.delete]
  refine Session.leaves_stage (Endpoint.state_request hname) (Endpoint.reports_iff.mp running_reports) ?_
  rw [if_neg (show ¬(InstanceState.mk "Running").isStopped = true by decide)]
  refine Session.leaves_stage (Endpoint.forceStop_request hname) (hstarted rfl accepting_starts) ?_
  refine Session.leaves_stage hstop finished_conclude ?_
  refine Session.leaves_stage (Endpoint.delete_request hname) (hstarted rfl hstarts) ?_
  exact Session.leaves_stage hdelete finished_conclude (.here _)

theorem delete_kept_smooth :
    let tr := smoothDelete "/1.0/operations/o"
    validName "web" = true ∧ (Session.plan "" (.delete "web")).Leaves tr (.done (.ok ())) ∧ ∃ hello l,
      (deleteProtocol "web").Kept tr (.done (.ok ())) hello l ∧ (deleteProtocol "web").Gated l ∧
      (∃ stop operation, l.map Prod.fst <+: deleteOrder "web" stop operation) ∧
      (∀ x s e rest, x.Reports s → l = (stateRequest "web", .ok x) :: e :: rest →
        e.1 = if s.isStopped then deleteRequest "web" else stopRequest "web") ∧
      (∀ before x after, l = before ++ (deleteRequest "web", x) :: after → Stopped "web" before) ∧
      ∀ before request x operation wait a after, request.method ≠ .get → x.Starts operation →
        l = before ++ (request, .ok x) :: (wait, a) :: after →
        (wait = ⟨.get, operation ++ "/wait", none⟩ ↔ '#' ∉ operation.toList) := by
  have hname : validName "web" = true := by decide
  have h : (Session.plan "" (.delete "web")).Leaves (smoothDelete "/1.0/operations/o") (.done (.ok ())) :=
    leaves_smoothDelete accepting_starts (by decide)
  exact ⟨hname, h, delete_kept hname h⟩

/-- The last operation has a `#` in its name, and the wait asks for something else. -/
theorem delete_waits_for_another :
    let tr := smoothDelete "/1.0/operations/o#"
    (Session.plan "" (.delete "web")).Leaves tr (.done (.ok ())) ∧
      (accepting "/1.0/operations/o#").Starts "/1.0/operations/o#" ∧
      (said tr).drop 3 =
        [(deleteRequest "web", .ok (accepting "/1.0/operations/o#")), (⟨.get, "/1.0/operations/o", none⟩, .ok finished)] :=
  ⟨leaves_smoothDelete accepting_starts_hash (by decide), accepting_starts_hash, rfl⟩

end

end MachineKeeper.Daemon
