/-
  MachineKeeper.Daemon.Envelope — what the daemon answers with.

  Every body is an envelope. An `async` one names an operation to wait for, an `error` one says
  what went wrong, and the metadata of the others is decoded by whoever asked.
-/

import MachineKeeper.Json.Record

namespace MachineKeeper.Daemon

open Json (Codec)

structure Envelope where
  type : String
  statusCode : UInt16
  errorCode : UInt16
  error : String
  /-- Where to wait for a background operation. -/
  operation : String
  metadata : Json

def Envelope.codec : Codec Envelope :=
  Codec.record "Envelope"
    (.cons (.required "type" .string) <|
     .cons (.withDefault "status_code" .uint16 0) <|
     .cons (.withDefault "error_code" .uint16 0) <|
     .cons (.withDefault "error" .string "") <|
     .cons (.withDefault "operation" .string "") <|
     .cons (.withDefault "metadata" .any .null) .nil)
    (fun (type, status, code, error, operation, metadata, ()) =>
      ⟨type, status, code, error, operation, metadata⟩)
    (fun e => (e.type, e.statusCode, e.errorCode, e.error, e.operation, e.metadata, ()))

structure ServerInfo where
  apiVersion : String
  auth : String
  deriving DecidableEq

def ServerInfo.codec : Codec ServerInfo :=
  Codec.record "ServerInfo"
    (.cons (.withDefault "api_version" .string "") <|
     .cons (.withDefault "auth" .string "") .nil)
    (fun (version, auth, ()) => ⟨version, auth⟩)
    (fun s => (s.apiVersion, s.auth, ()))

/-- How a background operation ended. -/
structure OperationResult where
  status : String
  statusCode : UInt16
  err : String
  deriving DecidableEq

namespace OperationResult

def codec : Codec OperationResult :=
  Codec.record "OperationMetadata"
    (.cons (.withDefault "status" .string "") <|
     .cons (.withDefault "status_code" .uint16 0) <|
     .cons (.withDefault "err" .string "") .nil)
    (fun (status, code, err, ()) => ⟨status, code, err⟩)
    (fun r => (r.status, r.statusCode, r.err, ()))

def succeeded (r : OperationResult) : Bool := r.statusCode == 200

/-- What went wrong: the error if there is one, or else the status. -/
def complaint (r : OperationResult) : String := if r.err = "" then r.status else r.err

end OperationResult

/-- What an instance is doing. -/
structure InstanceState where
  status : String
  deriving DecidableEq

namespace InstanceState

def codec : Codec InstanceState :=
  Codec.record "InstanceState"
    (.cons (.required "status" .string) .nil)
    (fun (status, ()) => ⟨status⟩)
    (fun s => (s.status, ()))

/-- Without regard to the case of the letters. -/
def isStopped (s : InstanceState) : Bool :=
  s.status.toList.map Char.toLower == ['s', 't', 'o', 'p', 'p', 'e', 'd']

end InstanceState

end MachineKeeper.Daemon
