/-
  MachineKeeper.Proofs.Object.History — the conditions of an object after a history of observations.

  Observations are made one after another (`after`). A record is made by those of its own type
  alone, whatever comes between, so each type has a history of its own (`history`): the record it
  began with, if there was one, and its observations. The record is followed through that history
  by itself, observation by observation.

  Proved:
  - `types_after`: new types come behind the old ones, in the order in which they come first.
  - `find?_after`: the record of a type is that of its own history.
  - `recorded_since`: it says what was said last, and since when its status has held.
  - `history_recorded`: all of it, for records of different types.
-/

import Mathlib.Data.List.Induction
import MachineKeeper.Proofs.Object.Condition
import MachineKeeper.Proofs.Store.Change

namespace MachineKeeper.Condition

/-! ## One observation -/

/-- The record of a type after an observation of that type. -/
def renew (old : Option Condition) (new : Condition) : Condition :=
  match old with
  | none => new
  | some old => (amend old new).1

theorem find?_set_self (new : Condition) (cs : List Condition) :
    find? new.type (set new cs).1 = some (renew (find? new.type cs) new) := by
  induction cs with
  | nil => simp [set, find?, renew]
  | cons old rest ih =>
    by_cases h : old.type = new.type
    · simp [set, find?, h, amend_type, renew]
    · simpa [set, find?, h] using ih

theorem find?_set_of_ne {type : String} {new : Condition} (h : new.type ≠ type) (cs : List Condition) :
    find? type (set new cs).1 = find? type cs := by
  induction cs with
  | nil => simp [set, find?, h]
  | cons old rest ih =>
    by_cases hold : old.type = new.type
    · have hne : old.type ≠ type := by
        intro he
        exact h (hold.symm.trans he)
      simp [set, find?, hold, amend_type, h]
    · rw [set, if_neg hold]
      by_cases he : old.type = type
      · simp [find?, he]
      · simpa [find?, he] using ih

/-- A type that has no record yet comes last. -/
theorem types_set (new : Condition) (cs : List Condition) : (set new cs).1.map (·.type) =
    if new.type ∈ cs.map (·.type) then cs.map (·.type) else cs.map (·.type) ++ [new.type] := by
  induction cs with
  | nil => simp [set]
  | cons old rest ih =>
    by_cases h : old.type = new.type
    · simp [set, h, amend_type]
    · have hne : new.type ≠ old.type := fun he => h he.symm
      simp only [set, if_neg h, List.map_cons, ih, List.mem_cons, hne, false_or]
      split <;> rfl

theorem nodup_set {cs : List Condition} (h : (cs.map (·.type)).Nodup) (new : Condition) :
    ((set new cs).1.map (·.type)).Nodup := by
  rw [types_set]
  split
  · exact h
  · next hnew =>
    rw [List.nodup_append]
    refine ⟨h, by simp, ?_⟩
    intro type htype other hother
    rw [List.mem_singleton] at hother
    subst hother
    intro he
    exact hnew (he ▸ htype)

/-! ## One after another -/

/-- The records after these observations. -/
def after (news cs : List Condition) : List Condition := news.foldl (fun cs new => (set new cs).1) cs

theorem nodup_after (news : List Condition) {cs : List Condition} (h : (cs.map (·.type)).Nodup) :
    ((after news cs).map (·.type)).Nodup := by
  induction news generalizing cs with
  | nil => exact h
  | cons new news ih => exact ih (nodup_set h new)

/-- The types without a record, each where it comes first. -/
def newTypes (news cs : List Condition) : List String :=
  ((news.map (·.type)).filter (· ∉ cs.map (·.type))).eraseDups

theorem types_after (news cs : List Condition) :
    (after news cs).map (·.type) = cs.map (·.type) ++ newTypes news cs := by
  induction news generalizing cs with
  | nil => simp [after, newTypes]
  | cons new news ih =>
    have hafter : after (new :: news) cs = after news (set new cs).1 := rfl
    rw [hafter, ih, newTypes, newTypes, types_set, List.map_cons]
    by_cases h : new.type ∈ cs.map (·.type)
    · rw [if_pos h, List.filter_cons_of_neg (by simpa using h)]
    · rw [if_neg h, List.filter_cons_of_pos (by simpa using h), List.eraseDups_cons, List.filter_filter,
        List.append_assoc, List.singleton_append]
      congr 3
      apply List.filter_congr
      intro type _
      rw [Bool.eq_iff_iff]
      simp [List.mem_append, and_comm]

/-- What has become of the record of one type. -/
def recorded (history : List Condition) : Option Condition := history.foldl (fun old new => some (renew old new)) none

/-- All that has been observed of a type, from the record it began with. -/
def history (type : String) (news cs : List Condition) : List Condition :=
  (find? type cs).toList ++ news.filter (·.type = type)

theorem find?_after (type : String) (news cs : List Condition) :
    find? type (after news cs) = recorded (history type news cs) := by
  have hfirst : ∀ (old : Option Condition) (l : List Condition),
      recorded (old.toList ++ l) = l.foldl (fun old new => some (renew old new)) old := by
    intro old l
    cases old <;> rfl
  rw [history, hfirst]
  induction news generalizing cs with
  | nil => rfl
  | cons new news ih =>
    have hafter : after (new :: news) cs = after news (set new cs).1 := rfl
    rw [hafter, ih]
    by_cases h : new.type = type
    · subst h
      rw [find?_set_self, List.filter_cons_of_pos (by simp), List.foldl_cons]
    · rw [find?_set_of_ne h, List.filter_cons_of_neg (by simpa using h)]

/-- From `first` on the status has been the same, and it was another one right before. -/
def Streak (history : List Condition) (first : Condition) : Prop :=
  ∃ before rest, history = before ++ first :: rest ∧ (∀ c ∈ rest, c.status = first.status) ∧
    ∀ c, before.getLast? = some c → c.status ≠ first.status

/-- The same status once more. -/
theorem Streak.goesOn {history : List Condition} {first last : Condition} (h : Streak history first)
    (hlast : last.status = first.status) : Streak (history ++ [last]) first := by
  obtain ⟨before, rest, rfl, hrest, hbefore⟩ := h
  refine ⟨before, rest ++ [last], by simp, ?_, hbefore⟩
  intro c hc
  rcases List.mem_append.mp hc with hc | hc
  · exact hrest c hc
  · rw [List.mem_singleton.mp hc]
    exact hlast

/-- The status of the last observation is that of the streak. -/
theorem Streak.status {history : List Condition} {first last : Condition} (h : Streak (history ++ [last]) first) :
    last.status = first.status := by
  obtain ⟨before, rest, hhistory, hrest, -⟩ := h
  have hlast := congrArg List.getLast? hhistory
  rw [List.getLast?_concat, List.getLast?_append] at hlast
  rcases List.eq_nil_or_concat rest with rfl | ⟨rest, c, rfl⟩
  · have he : last = first := by simpa using hlast
    rw [he]
  · have he : last = c := by simpa [List.getLast?_cons] using hlast
    rw [he]
    apply hrest
    simp

/-- Where the status flips a streak begins. -/
theorem Streak.flip {history : List Condition} {prev last : Condition} (h : prev.status ≠ last.status) :
    Streak (history ++ [prev] ++ [last]) last := by
  refine ⟨history ++ [prev], [], rfl, by simp, ?_⟩
  intro c hc
  rw [List.getLast?_concat] at hc
  cases hc
  exact h

/-- The record says what was observed last, and its time is that of the first observation of the final streak. -/
theorem recorded_since (history : List Condition) (last : Condition) :
    ∃ c first, recorded (history ++ [last]) = some c ∧ c.Says last ∧ Streak (history ++ [last]) first ∧
      c.changedAt = first.changedAt := by
  induction history using List.reverseRecOn generalizing last with
  | nil =>
    refine ⟨last, last, rfl, ⟨rfl, rfl, rfl, rfl⟩, ⟨[], [], rfl, by simp, by simp⟩, rfl⟩
  | append_singleton history prev ih =>
    obtain ⟨c, first, hc, hsays, hstreak, htime⟩ := ih prev
    have hnext : recorded (history ++ [prev] ++ [last]) = some (amend c last).1 := by
      unfold recorded at hc ⊢
      rw [List.foldl_append, hc]
      rfl
    have hstatus : c.status = prev.status := hsays.1
    by_cases h : prev.status = last.status
    · have hsame : c.status = last.status := hstatus.trans h
      refine ⟨(amend c last).1, first, hnext, amend_says c last, ?_, ?_⟩
      · exact hstreak.goesOn (h.symm.trans hstreak.status)
      · simpa [amend, hsame] using htime
    · have hflip : c.status ≠ last.status := fun he => h (hstatus.symm.trans he)
      refine ⟨(amend c last).1, last, hnext, amend_says c last, Streak.flip h, ?_⟩
      simp [amend, hflip]

/-- After any history the records are of different types again: the old ones in their order, and the new ones behind
them as they came. The record of a type that was observed says what was observed last, and its time is that of the first
observation in the final streak of one status, or of the record the type began with if the streak reaches back to it. The
others are as they were. And each observation is said to have changed the records if and only if it has. -/
theorem history_recorded (news : List Condition) {cs : List Condition} (h : (cs.map (·.type)).Nodup) :
    ((after news cs).map (·.type)).Nodup ∧
      (after news cs).map (·.type) = cs.map (·.type) ++ newTypes news cs ∧
      (∀ type last, (news.filter (·.type = type)).getLast? = some last → ∃ c first,
        find? type (after news cs) = some c ∧ c.Says last ∧
          Streak (history type news cs) first ∧ c.changedAt = first.changedAt) ∧
      (∀ type, type ∉ news.map (·.type) → find? type (after news cs) = find? type cs) ∧
      ∀ before new rest, news = before ++ new :: rest →
        ((set new (after before cs)).2 = true ↔ (set new (after before cs)).1 ≠ after before cs) := by
  refine ⟨nodup_after news h, types_after news cs, ?_, ?_, ?_⟩
  · intro type last hlast
    rcases List.eq_nil_or_concat (news.filter (·.type = type)) with hnil | ⟨earlier, last', hnews⟩
    · rw [hnil] at hlast
      cases hlast
    · rw [List.concat_eq_append] at hnews
      rw [hnews, List.getLast?_concat] at hlast
      cases hlast
      rw [find?_after, history, hnews, ← List.append_assoc]
      exact recorded_since _ _
  · intro type htype
    have hnone : news.filter (·.type = type) = [] := by
      rw [List.filter_eq_nil_iff]
      intro c hc he
      apply htype
      rw [List.mem_map]
      exact ⟨c, hc, of_decide_eq_true he⟩
    rw [find?_after, history, hnone, List.append_nil]
    cases find? type cs <;> rfl
  · intro before new rest _
    rw [Ne, set_eq_iff, Bool.not_eq_false]

/-! An instance that comes up, goes down and comes up again, with its network in between. -/

/-- An observation in that second of a minute. -/
def observation (type : String) (status : ConditionStatus) (second : Fin 60) (message : String) : Condition :=
  ⟨type, status, 1, ⟨someTime.date, 0, 0, second, 0, by unfold Timestamp.ValidTime; omega⟩, "Looked", message⟩

def comingUp : List Condition :=
  [observation "Ready" .no 10 "down", observation "Online" .unknown 11 "", observation "Ready" .yes 12 "up",
    observation "Online" .yes 13 "", observation "Ready" .yes 14 "still up"]

/-- Ready since the second observation that says so, and the network since its first. -/
theorem history_recorded_comingUp :
    ([observation "Ready" .yes 1 "up", observation "Stored" .no 2 ""].map (·.type)).Nodup ∧
      ∃ c first, find? "Ready" (after comingUp [observation "Ready" .yes 1 "up", observation "Stored" .no 2 ""]) = some c ∧
        c.Says (observation "Ready" .yes 14 "still up") ∧ c.changedAt = first.changedAt ∧
        Streak [observation "Ready" .yes 1 "up", observation "Ready" .no 10 "down", observation "Ready" .yes 12 "up",
          observation "Ready" .yes 14 "still up"] first := by
  have hnodup : ([observation "Ready" .yes 1 "up", observation "Stored" .no 2 ""].map (·.type)).Nodup := by decide
  obtain ⟨-, -, hset, -, -⟩ := history_recorded comingUp hnodup
  obtain ⟨c, first, hc, hsays, hstreak, htime⟩ := hset "Ready" (observation "Ready" .yes 14 "still up") (by decide)
  exact ⟨hnodup, c, first, hc, hsays, htime, hstreak⟩

end MachineKeeper.Condition
