/-
  MachineKeeper.Store.Call — the calls a store answers.
-/

import MachineKeeper.Store.Fault

namespace MachineKeeper

inductive StoreCall (k : Kind) where
  | get (key : Key)
  | list
  | create (o : Object k)
  /-- Writes metadata and spec. -/
  | update (o : Object k)
  /-- Writes the status. -/
  | updateStatus (o : Object k)
  | delete (key : Key)

/-- No object is no fault. A deletion answers with the object where markers still hold it. -/
@[reducible] def StoreCall.Answer {k : Kind} : StoreCall k → Type
  | .get _ => Except StoreFault (Option (Object k))
  | .list => Except StoreFault (List Key)
  | .create _ => Except StoreFault (Object k)
  | .update _ => Except StoreFault (Object k)
  | .updateStatus _ => Except StoreFault (Object k)
  | .delete _ => Except StoreFault (Option (Object k))

end MachineKeeper
