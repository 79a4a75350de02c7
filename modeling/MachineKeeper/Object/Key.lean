/-
  MachineKeeper.Object.Key — the identity of an object: a namespace and a name.

  Keys are ordered by namespace, then by name, each by its code points.
-/

namespace MachineKeeper

structure Key where
  space : String
  name : String
  deriving DecidableEq

namespace Key

def text (k : Key) : String := k.space ++ "/" ++ k.name

def Before (a b : Key) : Prop := a.space < b.space ∨ (a.space = b.space ∧ a.name < b.name)

instance : LT Key := ⟨Before⟩

instance (a b : Key) : Decidable (a < b) :=
  inferInstanceAs (Decidable (a.space < b.space ∨ (a.space = b.space ∧ a.name < b.name)))

end Key

end MachineKeeper
