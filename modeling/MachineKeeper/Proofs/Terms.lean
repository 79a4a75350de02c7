/-
  MachineKeeper.Proofs.Terms — plans that share a state with others.

  Between two calls of a plan its state is anyone's. The terms of a plan say what others may do
  to the state meanwhile (`moves`), what its own calls may be answered and do (`answers`), what
  has to hold whenever it makes a call (`may`), and what the effect of each of its calls has to
  keep to for the sake of the others (`owes`).

  A plan keeps its terms from a state on (`Plan.Keeps`) if, wherever others have left the state
  and however its calls are answered, each call is made where it may be made and does what it
  owes. The definition follows the tree of calls, so one is done with a plan function by
  function, and never with where in its course a plan stands.

  Proved:
  - `keeps_of_moves`: what others do cannot make a plan break its terms.
  - `keeps_call`: the rule for a call, where whatever is to be kept outlasts what others do.
-/

import MachineKeeper.Plan

namespace MachineKeeper

structure Terms {C : Type} (A : C → Type) (σ : Type) where
  moves : σ → σ → Prop
  answers : (c : C) → σ → A c → σ → Prop
  may : C → σ → Prop
  owes : σ → σ → Prop
  moves_trans : ∀ {s t u}, moves s t → moves t u → moves s u

variable {C : Type} {A : C → Type} {α σ : Type}

def Plan.Keeps (T : Terms A σ) : Plan A α → σ → Prop
  | .done _, _ => True
  | .call c next, s => ∀ t, T.moves s t → T.may c t ∧ ∀ x u, T.answers c t x u → T.owes t u ∧ (next x).Keeps T u

namespace Terms

variable {T : Terms A σ}

theorem keeps_of_moves {p : Plan A α} {s t : σ} (h : p.Keeps T s) (hst : T.moves s t) : p.Keeps T t := by
  cases p with
  | done a => trivial
  | call c next => exact fun u htu => h u (T.moves_trans hst htu)

/-- A call is in order if it is wherever an assertion holds that others cannot undo. -/
theorem keeps_call {P : σ → Prop} (stable : ∀ {s t}, P s → T.moves s t → P t) {c : C} {next : A c → Plan A α}
    {s : σ} (hs : P s) (hmay : ∀ t, P t → T.moves s t → T.may c t)
    (hanswer : ∀ t x u, P t → T.moves s t → T.answers c t x u → T.owes t u ∧ (next x).Keeps T u) :
    (Plan.call c next).Keeps T s := fun t hst =>
  ⟨hmay t (stable hs hst) hst, fun x u hu => hanswer t x u (stable hs hst) hst hu⟩

end Terms

end MachineKeeper
