/-
  MachineKeeper.Daemon.Message — requests and replies.

  A reply is good only if its status is in the 200s and its envelope is no error. What the
  daemon says about the error wins over the status of the reply; without a readable envelope
  only the status is left, in words.

  The body of a reply is a text. Bodies that are no UTF-8 are left out: what comes of reading one
  comes of reading some text too, and nothing else of a body is looked at.
-/

import MachineKeeper.Daemon.Envelope
import MachineKeeper.Daemon.Fault

namespace MachineKeeper.Daemon

inductive Method where
  | get
  | put
  | post
  | delete
  deriving DecidableEq

def Method.text : Method → String
  | .get => "GET"
  | .put => "PUT"
  | .post => "POST"
  | .delete => "DELETE"

/-- A request for JSON, with a body in JSON if it has one. -/
structure Request where
  method : Method
  path : String
  body : Option Json

structure Reply where
  status : UInt16
  body : String
  deriving DecidableEq

/-- What comes of a request that was sent. -/
inductive Exchange where
  | reply (r : Reply)
  /-- The connection closes without a reply. -/
  | dropped
  deriving DecidableEq

/-- The words that go with a status. -/
def reasonPhrase? (status : Nat) : Option String :=
  match status with
  | 100 => some "Continue"
  | 101 => some "Switching Protocols"
  | 102 => some "Processing"
  | 200 => some "OK"
  | 201 => some "Created"
  | 202 => some "Accepted"
  | 203 => some "Non Authoritative Information"
  | 204 => some "No Content"
  | 205 => some "Reset Content"
  | 206 => some "Partial Content"
  | 207 => some "Multi-Status"
  | 208 => some "Already Reported"
  | 226 => some "IM Used"
  | 300 => some "Multiple Choices"
  | 301 => some "Moved Permanently"
  | 302 => some "Found"
  | 303 => some "See Other"
  | 304 => some "Not Modified"
  | 305 => some "Use Proxy"
  | 307 => some "Temporary Redirect"
  | 308 => some "Permanent Redirect"
  | 400 => some "Bad Request"
  | 401 => some "Unauthorized"
  | 402 => some "Payment Required"
  | 403 => some "Forbidden"
  | 404 => some "Not Found"
  | 405 => some "Method Not Allowed"
  | 406 => some "Not Acceptable"
  | 407 => some "Proxy Authentication Required"
  | 408 => some "Request Timeout"
  | 409 => some "Conflict"
  | 410 => some "Gone"
  | 411 => some "Length Required"
  | 412 => some "Precondition Failed"
  | 413 => some "Payload Too Large"
  | 414 => some "URI Too Long"
  | 415 => some "Unsupported Media Type"
  | 416 => some "Range Not Satisfiable"
  | 417 => some "Expectation Failed"
  | 418 => some "I'm a teapot"
  | 421 => some "Misdirected Request"
  | 422 => some "Unprocessable Entity"
  | 423 => some "Locked"
  | 424 => some "Failed Dependency"
  | 426 => some "Upgrade Required"
  | 428 => some "Precondition Required"
  | 429 => some "Too Many Requests"
  | 431 => some "Request Header Fields Too Large"
  | 451 => some "Unavailable For Legal Reasons"
  | 500 => some "Internal Server Error"
  | 501 => some "Not Implemented"
  | 502 => some "Bad Gateway"
  | 503 => some "Service Unavailable"
  | 504 => some "Gateway Timeout"
  | 505 => some "HTTP Version Not Supported"
  | 506 => some "Variant Also Negotiates"
  | 507 => some "Insufficient Storage"
  | 508 => some "Loop Detected"
  | 510 => some "Not Extended"
  | 511 => some "Network Authentication Required"
  | _ => none

def statusText (status : UInt16) : String :=
  Text.decimal status.toNat ++ " " ++
    (reasonPhrase? status.toNat).getD "<unknown status code>"

namespace Reply

def isSuccess (r : Reply) : Bool := 200 ≤ r.status.toNat && r.status.toNat < 300

/-- The envelope of a good reply. -/
def envelope (r : Reply) : Except ApiFault Envelope :=
  match Envelope.codec.ofText r.body with
  | .error fault =>
    if r.isSuccess then .error (.json fault) else .error (.refused r.status (statusText r.status))
  | .ok e =>
    if e.type = "error" || !r.isSuccess then
      .error (.refused (if e.errorCode ≠ 0 then e.errorCode else r.status) e.error)
    else .ok e

end Reply

end MachineKeeper.Daemon
