/-
  MachineKeeper.Store.Catalog — entries in the order of their keys, one per key.

  A catalog is looked up through `get?`, and `insert` and `erase` are pinned down by what
  `get?` says afterwards.
-/

namespace MachineKeeper

/-- Entries, listed in the order of their keys. -/
structure Catalog (κ α : Type) where
  entries : List (κ × α)

namespace Catalog

variable {κ α : Type}

def empty : Catalog κ α := ⟨[]⟩

def keys (c : Catalog κ α) : List κ := c.entries.map (·.1)

def size (c : Catalog κ α) : Nat := c.entries.length

section

variable [DecidableEq κ]

def get? (c : Catalog κ α) (k : κ) : Option α := (c.entries.find? (·.1 = k)).map (·.2)

def contains (c : Catalog κ α) (k : κ) : Bool := (c.get? k).isSome

def erase (c : Catalog κ α) (k : κ) : Catalog κ α := ⟨c.entries.filter (·.1 ≠ k)⟩

def place [LT κ] [DecidableLT κ] (k : κ) (a : α) : List (κ × α) → List (κ × α)
  | [] => [(k, a)]
  | (k', a') :: rest =>
    if k = k' then (k, a) :: rest
    else if k < k' then (k, a) :: (k', a') :: rest
    else (k', a') :: place k a rest

def insert [LT κ] [DecidableLT κ] (c : Catalog κ α) (k : κ) (a : α) : Catalog κ α :=
  ⟨place k a c.entries⟩

/-! ## What a look-up finds -/

theorem get?_empty (k : κ) : (empty : Catalog κ α).get? k = none := rfl

theorem get?_erase (c : Catalog κ α) (k k' : κ) :
    (c.erase k).get? k' = if k = k' then none else c.get? k' := by
  obtain ⟨entries⟩ := c
  simp only [get?, erase]
  induction entries with
  | nil => simp
  | cons e rest ih =>
    by_cases he : e.1 = k
    · by_cases hk : k = k' <;> simp_all
    · by_cases hk : e.1 = k'
      · have hne : ¬k = k' := fun h => he (hk.trans h.symm)
        simp_all
      · simp_all

theorem get?_insert [LT κ] [DecidableLT κ] (c : Catalog κ α) (k k' : κ) (a : α) :
    (c.insert k a).get? k' = if k = k' then some a else c.get? k' := by
  obtain ⟨entries⟩ := c
  simp only [get?, insert]
  induction entries with
  | nil => by_cases hk : k = k' <;> simp [place, hk]
  | cons e rest ih =>
    obtain ⟨key, value⟩ := e
    unfold place
    by_cases he : k = key
    · by_cases hk : k = k' <;> simp_all
    · by_cases hlt : k < key
      · by_cases hk : k = k' <;> simp_all
      · by_cases hk : key = k'
        · simp_all
        · simp_all

end

end Catalog

end MachineKeeper
