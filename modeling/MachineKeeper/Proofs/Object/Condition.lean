/-
  MachineKeeper.Proofs.Object.Condition — what setting a condition does to the list.

  Setting replaces the first record of a type, or adds one behind the others. So the first record
  of the type then says what was set, the others are what and where they were, and setting answers
  that nothing changed exactly where nothing has: where the first record of the type says the same
  already, whenever its status came about.
-/

import MachineKeeper.Object.Condition

namespace MachineKeeper.Condition

/-- The same observation, whenever its status came about. -/
def Says (c new : Condition) : Prop :=
  c.status = new.status ∧ c.observedGeneration = new.observedGeneration ∧ c.reason = new.reason ∧
    c.message = new.message

/-- All records but the first of the type. -/
def others (type : String) (cs : List Condition) : List Condition := cs.eraseP (·.type == type)

theorem amend_type (old new : Condition) : (amend old new).1.type = old.type := rfl

theorem amend_says (old new : Condition) : (amend old new).1.Says new := ⟨rfl, rfl, rfl, rfl⟩

theorem amend_of_unchanged {old new : Condition} (h : (amend old new).2 = false) : (amend old new).1 = old := by
  simp only [amend, Bool.or_eq_false_iff, decide_eq_false_iff_not, ne_eq, Decidable.not_not] at h
  obtain ⟨⟨⟨hstatus, hreason⟩, hmessage⟩, hgeneration⟩ := h
  simp only [amend, ← hstatus, ← hreason, ← hmessage, ← hgeneration, if_true]

theorem set_of_unchanged {new : Condition} {cs : List Condition} (h : (set new cs).2 = false) :
    (set new cs).1 = cs := by
  induction cs with
  | nil => cases h
  | cons old rest ih =>
    by_cases ht : old.type = new.type
    · simp only [set, if_pos ht] at h ⊢
      rw [amend_of_unchanged h]
    · simp only [set, if_neg ht] at h ⊢
      rw [ih h]

/-- The first record of the type says what was set last. -/
theorem find?_set (new : Condition) (cs : List Condition) :
    ∃ c, find? new.type (set new cs).1 = some c ∧ c.Says new := by
  induction cs with
  | nil => exact ⟨new, by simp [set, find?], rfl, rfl, rfl, rfl⟩
  | cons old rest ih =>
    by_cases ht : old.type = new.type
    · refine ⟨(amend old new).1, ?_, amend_says old new⟩
      simp [set, find?, amend_type, ht]
    · obtain ⟨c, hc, hsays⟩ := ih
      refine ⟨c, ?_, hsays⟩
      simpa [set, if_neg ht, find?, ht] using hc

theorem amend_unchanged_iff {old new : Condition} : (amend old new).2 = false ↔ old.Says new := by
  simp only [amend, Says, Bool.or_eq_false_iff, decide_eq_false_iff_not, ne_eq, Decidable.not_not]
  constructor
  · intro h
    obtain ⟨⟨⟨hstatus, hreason⟩, hmessage⟩, hgeneration⟩ := h
    exact ⟨hstatus, hgeneration, hreason, hmessage⟩
  · intro h
    obtain ⟨hstatus, hgeneration, hreason, hmessage⟩ := h
    exact ⟨⟨⟨hstatus, hreason⟩, hmessage⟩, hgeneration⟩

theorem set_unchanged_iff {new : Condition} {cs : List Condition} :
    (set new cs).2 = false ↔ ∃ c, find? new.type cs = some c ∧ c.Says new := by
  induction cs with
  | nil => simp [set, find?]
  | cons old rest ih =>
    by_cases ht : old.type = new.type
    · simp only [set, if_pos ht, find?, List.find?_cons, beq_iff_eq.mpr ht, Option.some.injEq, exists_eq_left']
      exact amend_unchanged_iff
    · simpa only [set, if_neg ht, find?, List.find?_cons, beq_eq_false_iff_ne.mpr ht] using ih

/-- The answer is true: the list is another one if and only if it is said to be. -/
theorem set_eq_iff {new : Condition} {cs : List Condition} : (set new cs).1 = cs ↔ (set new cs).2 = false := by
  refine ⟨fun h => ?_, set_of_unchanged⟩
  obtain ⟨c, hc, hsays⟩ := find?_set new cs
  rw [h] at hc
  exact set_unchanged_iff.mpr ⟨c, hc, hsays⟩

theorem others_set (new : Condition) (cs : List Condition) : others new.type (set new cs).1 = others new.type cs := by
  induction cs with
  | nil => simp [set, others]
  | cons old rest ih =>
    by_cases ht : old.type = new.type
    · simp [set, others, amend_type, ht]
    · simpa [set, if_neg ht, others, ht] using ih

end MachineKeeper.Condition
