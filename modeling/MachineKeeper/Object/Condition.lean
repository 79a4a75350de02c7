/-
  MachineKeeper.Object.Condition — observations about an object, one record per type.

  A new observation replaces the record of its type, or joins the list behind the others. The
  time of the record moves only when the status flips, so it says since when the status has
  held. Setting also answers whether anything changed: a write is due only then.
-/

import MachineKeeper.Timestamp.Basic

namespace MachineKeeper

inductive ConditionStatus where
  | yes
  | no
  | unknown
  deriving DecidableEq

def ConditionStatus.text : ConditionStatus → String
  | .yes => "True"
  | .no => "False"
  | .unknown => "Unknown"

structure Condition where
  type : String
  status : ConditionStatus
  observedGeneration : Int64
  /-- Since when the status has held. -/
  changedAt : Timestamp
  reason : String
  message : String
  deriving DecidableEq

namespace Condition

def isTrue (c : Condition) : Bool := c.status == .yes

def find? (type : String) (cs : List Condition) : Option Condition :=
  cs.find? (·.type == type)

/-- The record after a new observation of its type, and whether it differs. -/
def amend (old new : Condition) : Condition × Bool :=
  let kept := if old.status = new.status then old.changedAt else new.changedAt
  ({ old with
      status := new.status
      observedGeneration := new.observedGeneration
      changedAt := kept
      reason := new.reason
      message := new.message },
    old.status ≠ new.status || old.reason ≠ new.reason || old.message ≠ new.message ||
      old.observedGeneration ≠ new.observedGeneration)

/-- The records after a new observation, and whether they differ. -/
def set (new : Condition) : List Condition → List Condition × Bool
  | [] => ([new], true)
  | old :: rest =>
    if old.type = new.type then
      let (amended, changed) := amend old new
      (amended :: rest, changed)
    else
      let (rest, changed) := set new rest
      (old :: rest, changed)

end Condition

end MachineKeeper
