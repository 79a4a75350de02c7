/-
  MachineKeeper.Proofs.Traces — the trace of a plan, taken apart.

  A plan that was put together from others (`Plan.bind`, `Plan.via`) leaves a trace in which the
  parts are not marked. Here each entry is given back to the part that made it.

  Proved:
  - `Leaves.of_bind`: a trace is that of the first part, or all of it and one of what follows.
  - `Leaves.of_via`: an entry belongs to one call of the outer plan, and what came before it is
    what carried out the calls before (`CarriedOut`) and the beginning of this one.
-/

import MachineKeeper.Proofs.Reconcile.Gate

namespace MachineKeeper

variable {C D : Type} {A : C → Type} {B : D → Type} {α β : Type}

/-- A place in a list is its last, or one of those before. -/
theorem snoc_eq_append_cons {before after l : List α} {a b : α} (h : l ++ [a] = before ++ b :: after) :
    (l = before ∧ a = b ∧ after = []) ∨ ∃ after', l = before ++ b :: after' ∧ after = after' ++ [a] := by
  rcases List.eq_nil_or_concat after with rfl | ⟨after, last, rfl⟩
  · obtain ⟨rfl, hlast⟩ := List.append_inj' h rfl
    cases hlast
    exact .inl ⟨rfl, rfl, rfl⟩
  · rw [List.concat_eq_append, ← List.cons_append, ← List.append_assoc] at h
    obtain ⟨rfl, hlast⟩ := List.append_inj' h rfl
    cases hlast
    exact .inr ⟨after, rfl, List.concat_eq_append⟩

namespace Plan

theorem Leaves.append {p q r : Plan A α} {tr tr' : Trace A} (h : p.Leaves tr q) (h' : q.Leaves tr' r) :
    p.Leaves (tr ++ tr') r := by
  induction h with
  | here p => exact h'
  | call _ ih => exact .call (ih h')

/-- Answers to the first part of a plan, or to all of it and some of what follows. -/
theorem Leaves.of_bind {p : Plan A α} {f : α → Plan A β} {tr : Trace A} {q : Plan A β} (h : (p.bind f).Leaves tr q) :
    (∃ p', p.Leaves tr p' ∧ q = p'.bind f) ∨
      ∃ a before after, tr = before ++ after ∧ p.Leaves before (.done a) ∧ (f a).Leaves after q := by
  induction p generalizing tr with
  | done a => exact .inr ⟨a, [], tr, rfl, .here _, h⟩
  | call c next ih =>
    cases h with
    | here => exact .inl ⟨_, .here _, rfl⟩
    | @call _ _ x tr _ h =>
      rcases ih x h with ⟨p', hp', rfl⟩ | ⟨a, before, after, rfl, hbefore, hafter⟩
      · exact .inl ⟨p', .call hp', rfl⟩
      · exact .inr ⟨a, ⟨c, x⟩ :: before, after, rfl, .call hbefore, hafter⟩

end Plan

/-- Each call of a trace, carried out by the calls of a plan of its own. -/
inductive CarriedOut (answer : (c : C) → Plan B (A c)) : Trace A → Trace B → Prop
  | nil : CarriedOut answer [] []
  | snoc {tr : Trace A} {tr' own : Trace B} {c : C} {x : A c} : CarriedOut answer tr tr' →
      (answer c).Leaves own (.done x) → CarriedOut answer (tr ++ [⟨c, x⟩]) (tr' ++ own)

theorem CarriedOut.cons {answer : (c : C) → Plan B (A c)} {c : C} {x : A c} {own : Trace B}
    (hc : (answer c).Leaves own (.done x)) {tr : Trace A} {tr' : Trace B} (h : CarriedOut answer tr tr') :
    CarriedOut answer (⟨c, x⟩ :: tr) (own ++ tr') := by
  induction h with
  | nil => simpa using CarriedOut.snoc .nil hc
  | snoc _ hlast ih =>
    rw [← List.append_assoc]
    exact .snoc ih hlast

theorem CarriedOut.eq_nil {answer : (c : C) → Plan B (A c)} {all : Trace B} (h : CarriedOut answer [] all) : all = [] := by
  generalize htr : ([] : Trace A) = tr at h
  cases h with
  | nil => rfl
  | snoc _ _ => simp at htr

theorem CarriedOut.uncons {answer : (c : C) → Plan B (A c)} {c : C} {x : A c} {tr : Trace A} {all : Trace B}
    (h : CarriedOut answer (⟨c, x⟩ :: tr) all) :
    ∃ own rest, all = own ++ rest ∧ (answer c).Leaves own (.done x) ∧ CarriedOut answer tr rest := by
  generalize htr : ⟨c, x⟩ :: tr = first at h
  induction h generalizing tr with
  | nil => cases htr
  | @snoc before past own c' x' hpast hown ih =>
    cases before with
    | nil =>
      cases htr
      cases hpast.eq_nil
      exact ⟨own, [], (List.append_nil own).symm, hown, .nil⟩
    | cons e before =>
      cases htr
      obtain ⟨own', rest, rfl, hown', hrest⟩ := ih rfl
      exact ⟨own', rest ++ own, List.append_assoc .., hown', .snoc hrest hown⟩

namespace Plan

theorem Leaves.upTo {p q : Plan A α} {before after : Trace A} {e : (c : C) × A c}
    (h : p.Leaves (before ++ e :: after) q) : ∃ rest, p.Leaves (before ++ [e]) rest := by
  obtain ⟨next, hbefore, -⟩ := h.split
  exact ⟨_, hbefore.append (.call (.here _))⟩

/-- Each entry belongs to the plan of one call, and all before it to that call and those it came after. -/
theorem Leaves.of_via {answer : (c : C) → Plan B (A c)} {p : Plan A α} {before after : Trace B} {e : (d : D) × B d}
    {q : Plan B α} (h : (p.via answer).Leaves (before ++ e :: after) q) :
    ∃ tr c next past own rest, p.Leaves tr (.call c next) ∧ CarriedOut answer tr past ∧ before = past ++ own ∧
      (answer c).Leaves (own ++ [e]) rest := by
  induction p generalizing before with
  | done a =>
    obtain ⟨next, hbefore, -⟩ := h.split
    cases hbefore
  | call c next ih =>
    have hfirst : ∀ {own' : Trace B} {p' : Plan B (A c)}, (answer c).Leaves (before ++ e :: own') p' →
        ∃ tr c' next' past own rest, (Plan.call c next).Leaves tr (.call c' next') ∧ CarriedOut answer tr past ∧
          before = past ++ own ∧ (answer c').Leaves (own ++ [e]) rest := by
      intro own' p' hp'
      obtain ⟨rest, hrest⟩ := hp'.upTo
      exact ⟨[], c, next, [], before, rest, .here _, .nil, rfl, hrest⟩
    rcases Leaves.of_bind h with ⟨p', hp', -⟩ | ⟨x, own, rest, htr, hown, hrest⟩
    · exact hfirst hp'
    · have hnext : ∀ {before' : Trace B}, before = own ++ before' → rest = before' ++ e :: after →
          ∃ tr c' next' past own rest, (Plan.call c next).Leaves tr (.call c' next') ∧ CarriedOut answer tr past ∧
            before = past ++ own ∧ (answer c').Leaves (own ++ [e]) rest := by
        rintro before' rfl rfl
        obtain ⟨tr, c', next', past, own', rest, hleaves, hpast, rfl, hown'⟩ := ih x hrest
        exact ⟨⟨c, x⟩ :: tr, c', next', own ++ past, own', rest, .call hleaves, hpast.cons hown,
          (List.append_assoc ..).symm, hown'⟩
      rcases List.append_eq_append_iff.mp htr with ⟨own', rfl, hafter⟩ | ⟨before', hbefore, hrest'⟩
      · cases own' with
        | nil =>
          rw [List.append_nil] at hnext
          exact hnext (List.append_nil _).symm hafter.symm
        | cons e' own' =>
          cases hafter
          exact hfirst hown
      · exact hnext hbefore hrest'

end Plan

end MachineKeeper
