/-
  MachineKeeper.Proofs.Store.Order — a catalog stays in the order of its keys.

  The order of keys and that of places in a table compare one part after another, and are
  strict total orders because those of their parts are. So a list of keys that is in order is
  known once it is known which keys are in it.

  Proved:
  - `Ordered.insert`, `Ordered.erase`: entries that are in order stay so, with one per key.
  - `mem_keys_iff`: the keys of a catalog are those that a look-up finds.
-/

import Mathlib.Data.List.Sort
import Mathlib.Data.String.Basic
import MachineKeeper.Store.Table

namespace MachineKeeper

/-! ## Strict total orders -/

/-- Comparing first by one part, then by the other. -/
theorem isStrictTotalOrder_lex {α β γ : Type} [LinearOrder α] {s : β → β → Prop} [IsStrictTotalOrder β s]
    (f : γ → α) (g : γ → β) (hext : ∀ a b, f a = f b → g a = g b → a = b) :
    IsStrictTotalOrder γ fun a b => f a < f b ∨ (f a = f b ∧ s (g a) (g b)) where
  trichotomous a b hab hba := by
    simp only [not_or, not_and] at hab hba
    have hf : f a = f b := le_antisymm (not_lt.mp hba.1) (not_lt.mp hab.1)
    exact hext a b hf (Std.Trichotomous.trichotomous _ _ (hab.2 hf) (hba.2 hf.symm))
  irrefl a := by
    rintro (h | ⟨-, h⟩)
    · exact lt_irrefl _ h
    · exact irrefl_of s _ h
  trans a b c := by
    rintro (hab | ⟨hab, hab'⟩) (hbc | ⟨hbc, hbc'⟩)
    · exact .inl (hab.trans hbc)
    · exact .inl (hbc ▸ hab)
    · exact .inl (hab ▸ hbc)
    · exact .inr ⟨hab.trans hbc, trans_of s hab' hbc'⟩

instance : IsStrictTotalOrder Key (· < ·) :=
  isStrictTotalOrder_lex (s := (· < ·)) Key.space Key.name fun
    | ⟨_, _⟩, ⟨_, _⟩, rfl, rfl => rfl

instance : IsStrictTotalOrder Row.Place (· < ·) :=
  isStrictTotalOrder_lex (s := (· < ·)) Row.Place.kind Row.Place.key fun
    | ⟨_, _⟩, ⟨_, _⟩, rfl, rfl => rfl

/-! ## Catalogs -/

namespace Catalog

variable {κ α : Type}

/-- Later entries have greater keys. -/
def Ordered [LT κ] (c : Catalog κ α) : Prop := c.keys.Pairwise (· < ·)

theorem ordered_empty [LT κ] : (empty : Catalog κ α).Ordered := List.Pairwise.nil

variable [DecidableEq κ]

theorem mem_keys_iff {c : Catalog κ α} {k : κ} : k ∈ c.keys ↔ (c.get? k).isSome := by
  simp [keys, get?]

theorem Ordered.erase [LT κ] {c : Catalog κ α} (h : c.Ordered) (k : κ) : (c.erase k).Ordered :=
  List.Pairwise.sublist (List.filter_sublist.map _) h

theorem mem_place [LT κ] [DecidableLT κ] {k k' : κ} {a : α} {entries : List (κ × α)}
    (h : k' ∈ (place k a entries).map (·.1)) : k' = k ∨ k' ∈ entries.map (·.1) := by
  induction entries with
  | nil => simpa [place] using h
  | cons e rest ih =>
    unfold place at h
    split at h
    · simp only [List.map_cons, List.mem_cons] at h ⊢
      exact h.imp_right .inr
    · split at h
      · simpa using h
      · simp only [List.map_cons, List.mem_cons] at h ⊢
        exact h.elim (fun h => .inr (.inl h)) fun h => (ih h).imp_right .inr

theorem Ordered.insert [LT κ] [DecidableLT κ] [IsStrictTotalOrder κ (· < ·)] {c : Catalog κ α} (h : c.Ordered)
    (k : κ) (a : α) : (c.insert k a).Ordered := by
  obtain ⟨entries⟩ := c
  simp only [Ordered, keys, Catalog.insert] at h ⊢
  induction entries with
  | nil => simp [place]
  | cons e rest ih =>
    obtain ⟨hfirst, hrest⟩ := List.pairwise_cons.mp h
    unfold place
    split
    · rename_i heq
      exact List.pairwise_cons.mpr ⟨heq ▸ hfirst, hrest⟩
    · rename_i hne
      split
      · rename_i hlt
        refine List.pairwise_cons.mpr ⟨fun k' hk' => ?_, h⟩
        rcases List.mem_cons.mp hk' with rfl | hk'
        · exact hlt
        · exact trans_of (· < ·) hlt (hfirst k' hk')
      · rename_i hnlt
        refine List.pairwise_cons.mpr ⟨fun k' hk' => ?_, ih hrest⟩
        rcases mem_place hk' with rfl | hk'
        · exact (trichotomous_of (· < ·) e.1 k').resolve_right fun h => h.elim (hne ·.symm) hnlt
        · exact hfirst k' hk'

end Catalog

end MachineKeeper
