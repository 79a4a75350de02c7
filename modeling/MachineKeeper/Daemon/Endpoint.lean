/-
  MachineKeeper.Daemon.Endpoint — what can be asked of the daemon.

  An endpoint is one request and the way to read its answer. A request is refused here, before
  anything is sent, where the instance name or the path would not do. There is no limit here to the
  length of a path.
-/

import MachineKeeper.Daemon.Address
import MachineKeeper.Daemon.Message
import MachineKeeper.Daemon.Payload

namespace MachineKeeper.Daemon

structure Endpoint (α : Type) where
  request : Except ApiFault Request
  read : Envelope → Except ApiFault α

namespace Endpoint

/-- What an exchange amounts to. -/
def conclude {α : Type} (e : Endpoint α) : Exchange → Except ApiFault α
  | .dropped => .error .closed
  | .reply r => do e.read (← r.envelope)

def requestTo (method : Method) (path : String) (body : Option Json) :
    Except ApiFault Request :=
  if Path.valid path then .ok ⟨method, Path.sent path, body⟩
  else .error (.unexpected ("invalid request path " ++ Text.quoted path))

/-- The path of an instance, or of something that belongs to it. -/
def instancePath (name behind : String) : Except ApiFault String :=
  if validName name then .ok ("/1.0/instances/" ++ name ++ behind)
  else .error (.invalidName name)

def decoded {α : Type} (c : Json.Codec α) (e : Envelope) : Except ApiFault α :=
  (c.decode e.metadata).mapError fun cause => .json cause.unplaced

/-- The operation an answer asks to wait for. -/
def started (e : Envelope) : Except ApiFault String :=
  if e.type ≠ "async" || e.operation = "" then
    .error (.unexpected ("expected async response, got " ++ e.type))
  else .ok e.operation

/-- Information about the server. Asking for it opens a session. -/
def server : Endpoint ServerInfo :=
  ⟨requestTo .get "/1.0" none, decoded ServerInfo.codec⟩

def lookUp (name : String) : Endpoint Json where
  request := do requestTo .get (← instancePath name "") none
  read e := .ok e.metadata

def state (name : String) : Endpoint InstanceState where
  request := do requestTo .get (← instancePath name "/state") none
  read := decoded InstanceState.codec

def create (r : InstanceRequest) : Endpoint String where
  request :=
    if validName r.name then requestTo .post "/1.0/instances" (some (creation r))
    else .error (.invalidName r.name)
  read := started

def forceStop (name : String) : Endpoint String where
  request := do requestTo .put (← instancePath name "/state") (some forcedStop)
  read := started

/-- Only a stopped instance can be deleted. -/
def delete (name : String) : Endpoint String where
  request := do requestTo .delete (← instancePath name "") none
  read := started

/-- Answers when the operation has ended, and only if it has succeeded. -/
def wait (operation : String) : Endpoint Unit where
  request := requestTo .get (operation ++ "/wait") none
  read e := do
    let result ← decoded OperationResult.codec e
    if result.succeeded then .ok () else .error (.operation operation result.complaint)

end Endpoint

end MachineKeeper.Daemon
