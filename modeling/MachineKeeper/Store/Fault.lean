/-
  MachineKeeper.Store.Fault — why a store call failed.
-/

import MachineKeeper.Json.Fault
import MachineKeeper.Object.Basic

namespace MachineKeeper

inductive StoreFault where
  | notFound (kind : Kind) (key : Key)
  | alreadyExists (kind : Kind) (key : Key)
  /-- The write was prepared for another version than the stored one. -/
  | conflict (kind : Kind) (key : Key) (expected actual : UInt64)
  /-- The stored text is no object of its kind. -/
  | unreadable (fault : Json.Fault)
  /-- The table is gone. -/
  | unavailable
  deriving DecidableEq

namespace StoreFault

def message : StoreFault → String
  | .notFound kind key => kind.name ++ " " ++ key.text ++ " not found"
  | .alreadyExists kind key => kind.name ++ " " ++ key.text ++ " already exists"
  | .conflict kind key expected actual =>
    "conflict writing " ++ kind.name ++ " " ++ key.text ++ ": expected resourceVersion " ++
      Text.decimal expected.toNat ++ ", found " ++ Text.decimal actual.toNat
  | .unreadable fault => "serialization error: " ++ fault.message
  | .unavailable => "SQLite error: no such table: objects"

def isConflict : StoreFault → Bool
  | .conflict .. => true
  | _ => false

end StoreFault

end MachineKeeper
