/-
  MachineKeeper.Rehearsal.World — everything the keeper deals with, in one state.

  A world holds the clock, the signals, the stored objects, both backends and what was asked of
  them, and the scripts by which the daemon and a scripted reconciler answer. `perform` answers
  one call. Most are answered at once; a call that has to wait says under which context and for
  what, and whoever carries the plan out lets the clock run.

  Writes of machines may be preceded by one of another writer: a disturbance waits for the next
  write of its sort and is used up by it.
-/

import MachineKeeper.Backend.Simulated
import MachineKeeper.Daemon.Session
import MachineKeeper.Rehearsal.Script
import MachineKeeper.Store.Memory
import MachineKeeper.Store.Table
import MachineKeeper.Worker.Sync

namespace MachineKeeper.Rehearsal

open Daemon (Request SessionCall Exchange)

/-! ## Objects -/

/-- Where the objects are kept. -/
inductive Shelf where
  | memory (machines : Memory .machine) (clusters : Memory .cluster)
  | table (t : Table)

namespace Shelf

def emptyMemory : Shelf := .memory Catalog.empty Catalog.empty

def emptyTable : Shelf := .table Table.empty

def perform (fresh : Fresh) : (k : Kind) → (c : StoreCall k) → Shelf → c.Answer × Shelf
  | .machine, c, .memory machines clusters =>
    let (a, machines) := machines.perform fresh c
    (a, .memory machines clusters)
  | .cluster, c, .memory machines clusters =>
    let (a, clusters) := clusters.perform fresh c
    (a, .memory machines clusters)
  | _, c, .table t =>
    let (a, t) := t.perform fresh c
    (a, .table t)

end Shelf

/-- What another writer does to a machine. -/
inductive Disturbance where
  /-- Writes its status as it is. -/
  | touch
  | delete
  /-- Takes all its markers off and deletes it. -/
  | purge
  deriving DecidableEq

/-! ## Scripted reconciles -/

/-- One reconcile by script: wait, then cancel the context, then end. -/
structure Entry where
  /-- Milliseconds to wait under the context. -/
  pause : Option Nat
  cancels : Bool
  ending : Attempt

def Entry.never : Entry := ⟨none, false, .finished (.ok .never)⟩

/-- When a scripted reconcile began, and the deadline it was given. -/
structure Visit where
  /-- The key, in text. -/
  key : String
  time : Instant
  deadline : Option Instant
  deriving DecidableEq

/-! ## The world -/

/-- What a backend was asked. -/
inductive LogEntry where
  | backend (c : BackendCall)
  | daemon (r : Request)

structure World where
  now : Instant
  /-- What a look at the wall clock shows. -/
  wall : Timestamp
  signals : List Signal
  /-- Changes due as soon as anyone waits. -/
  overdue : List (Nat × Signal.Change)
  shelf : Shelf
  /-- How many ids have been handed out. -/
  uids : Nat
  onUpdate : List Disturbance
  onStatusUpdate : List Disturbance
  simulated : Simulated
  routes : List Route
  socketPresent : Bool
  connected : Bool
  /-- Whether someone is opening the session to the daemon. -/
  opening : Bool
  log : List LogEntry
  /-- The entries for each key, in text. -/
  scripts : List (String × List Entry)
  visits : List Visit

namespace World

def start (wall : Timestamp) (shelf : Shelf) : World where
  now := 0
  wall := wall
  signals := []
  overdue := []
  shelf := shelf
  uids := 0
  onUpdate := []
  onStatusUpdate := []
  simulated := Simulated.empty
  routes := []
  socketPresent := true
  connected := false
  opening := false
  log := []
  scripts := []
  visits := []

def record (e : LogEntry) (w : World) : World := { w with log := w.log ++ [e] }

/-- The id of the next new object. -/
def nextUid (w : World) : String := "<uid-" ++ Text.decimal w.uids ++ ">"

def fresh (w : World) : Fresh := ⟨w.nextUid, w.wall⟩

/-- A store call that nothing comes before. -/
def storeQuietly {k : Kind} (c : StoreCall k) (w : World) : c.Answer × World :=
  let (a, shelf) := w.shelf.perform w.fresh k c
  (a, { w with shelf := shelf })

def disturb (d : Disturbance) (key : Key) (w : World) : World :=
  match w.storeQuietly (.get (k := .machine) key) with
  | (.ok (some m), w) =>
    match d with
    | .touch => (w.storeQuietly (.updateStatus m)).2
    | .delete => (w.storeQuietly (.delete (k := .machine) key)).2
    | .purge =>
      let w := (w.storeQuietly (.update { m with metadata.finalizers := [] })).2
      (w.storeQuietly (.delete (k := .machine) key)).2
  | (_, w) => w

/-- What another writer does before this call, if anything. -/
def disturbed : (k : Kind) → StoreCall k → World → World
  | .machine, .update o, w =>
    match w.onUpdate with
    | [] => w
    | d :: rest => { w with onUpdate := rest }.disturb d o.key
  | .machine, .updateStatus o, w =>
    match w.onStatusUpdate with
    | [] => w
    | d :: rest => { w with onStatusUpdate := rest }.disturb d o.key
  | _, _, w => w

/-- An id is used up where an object has been created with it. -/
def countUid {k : Kind} : (c : StoreCall k) → c.Answer → World → World
  | .create _, .ok _, w => { w with uids := w.uids + 1 }
  | _, _, w => w

def store (k : Kind) (c : StoreCall k) (w : World) : c.Answer × World :=
  let (a, w) := (w.disturbed k c).storeQuietly c
  (a, w.countUid c a)

/-- Opens a signal and a context that it cancels. -/
def openSignal (value : Bool) (w : World) : Nat × World :=
  (w.signals.length, { w with signals := w.signals ++ [.constant value] })

def change (signal : Nat) (time : Instant) (c : Signal.Change) (w : World) : World :=
  { w with signals := w.signals.modify signal fun s => s.change time c }

/-- Makes the changes that are overdue. -/
def catchUp (w : World) : World :=
  { w.overdue.foldl (fun w (signal, c) => w.change signal w.now c) w with overdue := [] }

def interruption (ctx : Context) (w : World) : Option Interruption :=
  ctx.interruption w.signals w.now

/--
A context that is cancelled from the start, or after a while, or expires, as given. Whoever
cancels it after no time at all gets to it only when someone waits.
-/
def openContext (cancelled : Bool) (cancelAfter timeout : Option Nat) (w : World) :
    Context × World :=
  let (signal, w) := w.openSignal cancelled
  let w : World := match cancelAfter with
    | none => w
    | some 0 => { w with overdue := w.overdue ++ [(signal, .send true)] }
    | some ms => w.change signal (w.now + ms) (.send true)
  let ctx := Context.withCancel signal
  match timeout with
  | none => (ctx, w)
  | some ms => (ctx.expiringAt (w.now + ms), w)

/-! ## Calls -/

inductive Call where
  | clock
  | wallClock
  | interruption (ctx : Context)
  | store (k : Kind) (c : StoreCall k)
  | simulated (ctx : Context) (c : BackendCall)
  | session (ctx : Context) (c : SessionCall)
  /-- What the script has for a key. -/
  | visit (ctx : Context) (key : Key)
  | pause (ctx : Context) (duration : Nat)
  | cancel (ctx : Context)

@[reducible] def Call.Answer : Call → Type
  | .clock => Instant
  | .wallClock => Timestamp
  | .interruption _ => Option Interruption
  | .store _ c => c.Answer
  | .simulated _ c => c.Answer
  | .session _ c => c.Answer
  | .visit .. => Entry
  | .pause .. => Except Interruption Unit
  | .cancel _ => Unit

/-- How a call is answered. -/
inductive Response (α : Type) where
  | atOnce (a : α)
  /-- When the context is done, or the awaited is there. -/
  | waiting (ctx : Context) (ready : Option Instant) (answer : Except Interruption Unit → α)
  /-- When it is this call's turn to open the session. -/
  | queued (a : α)

/-- A request is on its way only once others have had the chance to act. -/
def session (ctx : Context) : (c : SessionCall) → World → Response c.Answer × World
  | .interruption, w => (.atOnce (w.interruption ctx), w)
  | .connected, w => (.atOnce w.connected, w)
  | .enter, w => if w.opening then (.queued (), w) else (.atOnce (), { w with opening := true })
  | .leave opened, w => (.atOnce (), { w with opening := false, connected := opened })
  | .socketPresent, w => (.atOnce w.socketPresent, w)
  | .exchange q, w =>
    let w := w.catchUp
    match w.interruption ctx with
    | some why => (.atOnce (.error why), w)
    | none =>
      let (routes, arrival) := receive w.now q w.routes
      let w := { w with routes := routes }.record (.daemon q)
      (.waiting ctx arrival.time fun r => r.map fun () => arrival.exchange, w)
  | .forget, w => (.atOnce (), { w with connected := false })

/-- The entry of a visit: one after another, the last one for good. -/
def visit (ctx : Context) (key : String) (w : World) : Entry × World :=
  let count := (w.visits.filter (·.key = key)).length
  let entries := ((w.scripts.find? (·.1 = key)).map (·.2)).getD []
  let entry := (entries[count]?).or entries.getLast?
  (entry.getD Entry.never, { w with visits := w.visits ++ [⟨key, w.now, ctx.deadline⟩] })

def perform : (c : Call) → World → Response c.Answer × World
  | .clock, w => (.atOnce w.now, w)
  | .wallClock, w => (.atOnce w.wall, w)
  | .interruption ctx, w => (.atOnce (w.interruption ctx), w)
  | .store k c, w =>
    let (a, w) := w.store k c
    (.atOnce a, w)
  | .simulated ctx c, w =>
    let (a, simulated) := w.simulated.perform (w.interruption ctx) c
    (.atOnce a, { w with simulated := simulated }.record (.backend c))
  | .session ctx c, w => w.session ctx c
  | .visit ctx key, w =>
    let (entry, w) := w.visit ctx key.text
    (.atOnce entry, w)
  | .pause ctx duration, w =>
    match w.interruption ctx with
    | some why => (.atOnce (.error why), w)
    | none =>
      if duration = 0 then (.atOnce (.ok ()), w)
      else (.waiting ctx (some (w.now + duration)) id, w.catchUp)
  | .cancel ctx, w =>
    match ctx.signal with
    | none => (.atOnce (), w)
    | some signal => (.atOnce (), w.change signal w.now (.send true))

end World

abbrev Act (α : Type) := Plan World.Call.Answer α

end MachineKeeper.Rehearsal
