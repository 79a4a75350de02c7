/-
  MachineKeeper.Rehearsal.Solo — carrying out one plan alone.

  The clock stands still while the plan acts and jumps to the end of each wait. A plan that
  waits beyond the limit, or for something that never comes, is abandoned at the limit; the
  right to open the session, if it held it, is free again.
-/

import MachineKeeper.Rehearsal.World

namespace MachineKeeper.Rehearsal

def World.abandon (limit : Instant) (w : World) : World :=
  { w with now := limit, opening := false }

/-- What the plan comes to, if it ends by the limit. -/
def play {α : Type} (limit : Instant) : Act α → World → Option α × World
  | .done a, w => (some a, w)
  | .call c next, w =>
    match w.perform c with
    | (.atOnce a, w) => play limit (next a) w
    | (.waiting ctx ready answer, w) =>
      match ctx.await w.signals w.now ready with
      | none => (none, w.abandon limit)
      | some (t, result) =>
        if t ≤ limit then play limit (next (answer result)) { w with now := t }
        else (none, w.abandon limit)
    | (.queued _, w) => (none, w.abandon limit)

end MachineKeeper.Rehearsal
