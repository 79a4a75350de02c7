/-
  MachineKeeper.Daemon.Session — the backend calls, as exchanges with the daemon.

  A session is opened by the first call that needs one, and by one call at a time: whoever comes
  while it is being opened waits for the outcome, and tries in turn if it failed. Every exchange
  runs under the context of the call; waiting for one's turn does not.

  Each call is a plan, so what is sent, in which order and after which answer, can be followed
  without a daemon.
-/

import MachineKeeper.Backend.Call
import MachineKeeper.Daemon.Endpoint
import MachineKeeper.Plan

namespace MachineKeeper.Daemon

/-- What a session needs of its surroundings. -/
inductive SessionCall where
  /-- Why the context of the call is done, if it is. -/
  | interruption
  | connected
  /-- Waits for the right to open the session. -/
  | enter
  /-- Gives that right back, and says whether the session is open now. -/
  | leave (opened : Bool)
  | socketPresent
  /-- Sends a request and waits for its answer under the context of the call. -/
  | exchange (request : Request)
  /-- Ends the session if there is one. -/
  | forget

@[reducible] def SessionCall.Answer : SessionCall → Type
  | .interruption => Option Interruption
  | .connected => Bool
  | .enter => Unit
  | .leave _ => Unit
  | .socketPresent => Bool
  | .exchange _ => Except Interruption Exchange
  | .forget => Unit

abbrev SessionPlan (α : Type) := Plan SessionCall.Answer α

namespace Session

variable {α : Type}

def ask (c : SessionCall) : SessionPlan c.Answer := Plan.ask c

/-- One request under the context. Nothing is sent once the context is done. -/
def run (e : Endpoint α) : SessionPlan (Except Interruption (Except ApiFault α)) := do
  match ← ask .interruption with
  | some why => return .error why
  | none =>
    match e.request with
    | .error fault => return .ok (.error fault)
    | .ok request =>
      match ← ask (.exchange request) with
      | .error why => return .error why
      | .ok exchange => return .ok (e.conclude exchange)

/-- Goes on with the answer of an endpoint, or gives up with the fault of that stage. -/
def stage {β : Type} (e : Endpoint α) (blame : String → BackendFault)
    (next : α → SessionPlan (Except BackendFault β)) : SessionPlan (Except BackendFault β) := do
  match ← run e with
  | .error why => return .error (.interrupted why)
  | .ok (.error fault) => return .error (blame fault.message)
  | .ok (.ok a) => next a

/-- The handshake, by whoever has the right to open the session. -/
def shake (socketPath : String) : SessionPlan (Except BackendFault Unit) := do
  if ← ask .socketPresent then
    stage Endpoint.server .connection fun _ => return .ok ()
  else
    return .error (.connection (ApiFault.socketMissing socketPath).message)

def connect (socketPath : String) : SessionPlan (Except BackendFault Unit) := do
  if ← ask .connected then return .ok ()
  else
    ask .enter
    if ← ask .connected then
      ask (.leave true)
      return .ok ()
    else
      let result ← shake socketPath
      ask (.leave result.isOk)
      return result

/-- A call that needs a session. -/
def within {β : Type} (socketPath : String) (p : SessionPlan (Except BackendFault β)) :
    SessionPlan (Except BackendFault β) := do
  match ← connect socketPath with
  | .error fault => return .error fault
  | .ok () => p

def create (r : InstanceRequest) : SessionPlan (Except BackendFault Unit) :=
  let blame (stage reason : String) : BackendFault := .create r.name (stage ++ ": " ++ reason)
  stage (Endpoint.create r) (blame "request rejected") fun operation =>
    stage (Endpoint.wait operation) (blame "provisioning failed") fun () =>
      return .ok ()

/-- A running instance cannot be deleted; it is stopped first. -/
def delete (name : String) : SessionPlan (Except BackendFault Unit) :=
  let blame (stage reason : String) : BackendFault := .delete name (stage ++ ": " ++ reason)
  let remove : SessionPlan (Except BackendFault Unit) :=
    stage (Endpoint.delete name) (blame "request rejected") fun operation =>
      stage (Endpoint.wait operation) (blame "deletion failed") fun () =>
        return .ok ()
  stage (Endpoint.state name) (blame "reading state") fun state =>
    if state.isStopped then remove
    else
      stage (Endpoint.forceStop name) (blame "stop rejected") fun operation =>
        stage (Endpoint.wait operation) (blame "stop failed") fun () => remove

/-- Only the daemon saying so makes an instance absent. -/
def exist (name : String) : SessionPlan (Except BackendFault Bool) := do
  match ← run (Endpoint.lookUp name) with
  | .error why => return .error (.interrupted why)
  | .ok (.ok _) => return .ok true
  | .ok (.error fault) =>
    if fault.isNotFound then return .ok false
    else return .error (.query name fault.message)

/-- The plan of a backend call against the daemon behind that socket. -/
def plan (socketPath : String) : (c : BackendCall) → SessionPlan c.Answer
  | .connect => connect socketPath
  | .create r => within socketPath (create r)
  | .delete name => within socketPath (delete name)
  | .exist name => within socketPath (exist name)
  | .close => do
    ask .forget
    return .ok ()

end Session

end MachineKeeper.Daemon
