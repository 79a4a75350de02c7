/-
  MachineKeeper.Backend.Simulated — a backend that keeps its instances in memory.

  It answers at once, records every call in order, and can be told to fail. A failed create may
  leave the instance behind and a failed delete may still remove it, as with a real daemon whose
  operation stops midway; and a create may report success without any effect.
-/

import MachineKeeper.Backend.Call
import MachineKeeper.Store.Catalog

namespace MachineKeeper

structure Simulated.Faults where
  /-- Every call but `close` fails to connect. -/
  connect : Bool
  create : Bool
  /-- A failing create leaves the instance behind. -/
  createLeavesInstance : Bool
  /-- Create reports success and does nothing. -/
  createWithoutEffect : Bool
  delete : Bool
  /-- A failing delete removes the instance. -/
  deleteRemovesInstance : Bool
  exist : Bool
  deriving DecidableEq

def Simulated.Faults.none : Simulated.Faults := ⟨false, false, false, false, false, false, false⟩

structure Simulated where
  instances : Catalog String InstanceRequest
  calls : List BackendCall
  faults : Simulated.Faults
  connected : Bool

namespace Simulated

def empty : Simulated := ⟨Catalog.empty, [], Faults.none, false⟩

def contains (s : Simulated) (name : String) : Bool := s.instances.contains name

/-- Puts an instance in place as if someone else had created it. -/
def insertForeign (s : Simulated) (name : String) : Simulated :=
  { s with instances := s.instances.insert name ⟨name, "", 0, 0, none⟩ }

/-- Takes an instance away as if someone else had deleted it; answers whether it was there. -/
def removeForeign (s : Simulated) (name : String) : Bool × Simulated :=
  (s.contains name, { s with instances := s.instances.erase name })

def createCount (s : Simulated) : Nat :=
  (s.calls.filter fun | .create _ => true | _ => false).length

def deleteCount (s : Simulated) : Nat :=
  (s.calls.filter fun | .delete _ => true | _ => false).length

def mutatingCalls (s : Simulated) : List BackendCall := s.calls.filter (·.mutates)

/-- What every call but `close` starts with: the context is honoured, and the session opens. -/
def check (why : Option Interruption) (s : Simulated) : Except BackendFault Unit × Simulated :=
  match why with
  | some why => (.error (.interrupted why), s)
  | none =>
    if s.faults.connect then (.error (.connection "[MOCK] daemon unreachable"), s)
    else (.ok (), { s with connected := true })

def create (r : InstanceRequest) (s : Simulated) : Except BackendFault Unit × Simulated :=
  let placed := { s with instances := s.instances.insert r.name r }
  if s.faults.create then
    (.error (.create r.name "[MOCK] provisioning failed"),
      if s.faults.createLeavesInstance then placed else s)
  else if s.faults.createWithoutEffect then (.ok (), s)
  else if s.contains r.name then
    (.error (.create r.name "[MOCK] instance already exists"), s)
  else (.ok (), placed)

def delete (name : String) (s : Simulated) : Except BackendFault Unit × Simulated :=
  let removed := { s with instances := s.instances.erase name }
  if s.faults.delete then
    (.error (.delete name "[MOCK] deletion failed"),
      if s.faults.deleteRemovesInstance then removed else s)
  else if s.contains name then (.ok (), removed)
  else (.error (.delete name "[MOCK] instance not found"), s)

def exist (name : String) (s : Simulated) : Except BackendFault Bool :=
  if s.faults.exist then .error (.query name "[MOCK] query failed") else .ok (s.contains name)

/-- Answers a call under a context that is done for the given reason, if for any. -/
def perform (why : Option Interruption) (c : BackendCall) (s : Simulated) :
    c.Answer × Simulated :=
  let s := { s with calls := s.calls ++ [c] }
  match c with
  | .connect => s.check why
  | .create r =>
    match s.check why with
    | (.error fault, s) => (.error fault, s)
    | (.ok (), s) => s.create r
  | .delete name =>
    match s.check why with
    | (.error fault, s) => (.error fault, s)
    | (.ok (), s) => s.delete name
  | .exist name =>
    match s.check why with
    | (.error fault, s) => (.error fault, s)
    | (.ok (), s) => (s.exist name, s)
  | .close => (.ok (), { s with connected := false })

end Simulated

end MachineKeeper
