/-
  MachineKeeper.Rehearsal.Script — a daemon that answers by a script.

  The script is a list of routes; the first that fits a request and has uses left answers it, at
  once or after a while, or never, or by closing the connection. What no route fits is answered
  as not found.
-/

import MachineKeeper.Clock.Signal
import MachineKeeper.Daemon.Message
import MachineKeeper.Json.Writer

namespace MachineKeeper.Rehearsal

open Daemon (Exchange Reply Request)

/-- What becomes of a request that a route takes. -/
inductive Fate where
  | answered
  | dropped
  | ignored
  deriving DecidableEq

structure Route where
  method : String
  /-- Path and query, as they are sent. -/
  path : String
  reply : Reply
  /-- How often it may still be used; always, if nothing is said. -/
  uses : Option Nat
  /-- Milliseconds before it answers. -/
  delay : Nat
  fate : Fate

namespace Route

def fits (r : Route) (q : Request) : Bool :=
  r.method = q.method.text && r.path = q.path && r.uses ≠ some 0

def used (r : Route) : Route := { r with uses := r.uses.map (· - 1) }

end Route

/-- A body does not go with every status. -/
def sendable (r : Reply) : Reply :=
  if r.status = 204 || r.status = 304 then { r with body := "" } else r

def notFound : Reply where
  status := 404
  body := Json.text <| .obj
    [("error", .str "not found"), ("error_code", .int 404), ("metadata", .null),
     ("type", .str "error")]

/-- What comes of a request, and when. It may never come. -/
structure Arrival where
  time : Option Instant
  exchange : Exchange

def Route.arrival (r : Route) (now : Instant) : Arrival :=
  match r.fate with
  | .answered => ⟨some (now + r.delay), .reply (sendable r.reply)⟩
  | .dropped => ⟨some (now + r.delay), .dropped⟩
  | .ignored => ⟨none, .dropped⟩

/-- The script after a request, and what comes of it. -/
def receive (now : Instant) (q : Request) : List Route → List Route × Arrival
  | [] => ([], ⟨some now, .reply notFound⟩)
  | r :: rest =>
    if r.fits q then (r.used :: rest, r.arrival now)
    else
      let (rest, arrival) := receive now q rest
      (r :: rest, arrival)

end MachineKeeper.Rehearsal
