/-
  MachineKeeper.Plan — what to do, call by call.

  A plan is a tree: it is done, or it makes one call and goes on with the answer. It says nothing
  about who answers, or when, so the same plan can be carried out, interrupted between any two
  of its calls, or followed through every answer there could be.

  `via` replaces each call by a plan of its own.
-/

namespace MachineKeeper

/-- A plan over calls `C`, each of which is answered in its own type. -/
inductive Plan {C : Type} (A : C → Type) (α : Type) where
  | done (result : α)
  | call (c : C) (next : A c → Plan A α)

namespace Plan

variable {C : Type} {A : C → Type} {α β : Type}

def bind : Plan A α → (α → Plan A β) → Plan A β
  | .done a, f => f a
  | .call c next, f => .call c fun x => (next x).bind f

/-- The plan that makes one call and is done with its answer. -/
def ask (c : C) : Plan A (A c) := .call c .done

instance : Monad (Plan A) where
  pure := .done
  bind := bind

variable {D : Type} {B : D → Type}

/-- The same plan over other calls, given a plan for each of its calls. -/
def via (answer : (c : C) → Plan B (A c)) : Plan A α → Plan B α
  | .done a => .done a
  | .call c next => (answer c).bind fun x => (next x).via answer

/-! ## Laws -/

@[simp] theorem done_bind (a : α) (f : α → Plan A β) : (Plan.done a).bind f = f a := rfl

@[simp] theorem call_bind (c : C) (next : A c → Plan A α) (f : α → Plan A β) :
    (Plan.call c next).bind f = .call c fun x => (next x).bind f := rfl

theorem bind_done (p : Plan A α) : p.bind .done = p := by
  induction p with
  | done a => rfl
  | call c next ih => simp [bind, ih]

theorem bind_assoc {γ : Type} (p : Plan A α) (f : α → Plan A β) (g : β → Plan A γ) :
    (p.bind f).bind g = p.bind fun a => (f a).bind g := by
  induction p with
  | done a => rfl
  | call c next ih => simp [bind, ih]

theorem via_bind (answer : (c : C) → Plan B (A c)) (p : Plan A α) (f : α → Plan A β) :
    (p.bind f).via answer = (p.via answer).bind fun a => (f a).via answer := by
  induction p with
  | done a => rfl
  | call c next ih => simp [bind, via, bind_assoc, ih]

end Plan

end MachineKeeper
