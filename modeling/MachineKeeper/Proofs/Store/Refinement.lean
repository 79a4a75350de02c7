/-
  MachineKeeper.Proofs.Store.Refinement — a table of texts answers like objects in memory.

  A table holds the objects of a kind (`Table.Holds`) if its rows of that kind are the texts of
  those objects, each in the row of its own key. Such a table is read as those objects, since an
  object is read back from its text; a write of one kind puts its text where the object would go
  in memory, and leaves the rows of the other kind alone, since a row is found by its kind first.
  The keys of a kind come out in order because the rows are.

  Proved:
  - `Table.Holds.perform`: a call on a table is answered as on the objects that the table holds,
    and the table holds the objects after the call.
  - `Shelf.Holds.perform`: the same of every shelf and both kinds.
  - `answers_table`: from the start, a table and two stores in memory give the same answers to
    any calls.
-/

import Mathlib.Logic.Function.Basic
import MachineKeeper.Proofs.Object.Format
import MachineKeeper.Proofs.Store.Change
import MachineKeeper.Proofs.Store.Order
import MachineKeeper.Rehearsal.World

namespace MachineKeeper

variable {k : Kind}

theorem Kind.name_injective : Function.Injective Kind.name := by
  intro a b h
  cases a <;> cases b <;> first | rfl | exact absurd h (by decide)

theorem Object.key_of_updateStatus {current o next : Object k} (h : current.updateStatus o = .ok next) :
    next.key = current.key := by
  unfold Object.updateStatus Object.checkVersion at h
  dsimp only at h
  split at h
  · cases h
    rfl
  · cases h

theorem Memory.get?_of_existing {s : Memory k} {key : Key} {o : Object k} (h : s.existing key = .ok o) :
    s.get? key = some o := by
  unfold Memory.existing at h
  split at h
  · rename_i hget
    cases h
    exact hget
  · cases h

/-! ## One table -/

namespace Table

def rowOf (o : Object k) : Row := ⟨Int64.ofInt o.metadata.resourceVersion.toNat, (Object.codec k).text o⟩

theorem place_inj {k' : Kind} {key key' : Key} : place k key = place k' key' ↔ k = k' ∧ key = key' := by
  simp only [place, Row.Place.mk.injEq, Kind.name_injective.eq_iff]

/-- The rows of a kind are the texts of those objects. -/
structure Holds (t : Table) (s : Memory k) : Prop where
  present : t.present
  rowsOrdered : t.rows.Ordered
  rows : ∀ key, t.rows.get? (place k key) = (s.get? key).map rowOf
  ordered : s.Ordered
  filed : s.Filed

theorem holds_empty : Holds empty (Catalog.empty : Memory k) where
  present := rfl
  rowsOrdered := Catalog.ordered_empty
  rows _ := rfl
  ordered := Catalog.ordered_empty
  filed := Memory.filed_empty

namespace Holds

variable {t : Table} {s : Memory k}

theorem read (h : t.Holds s) (key : Key) : Table.read k t key = .ok (s.get? key) := by
  simp only [Table.read, row?, if_pos h.present, h.rows, bind, Except.bind]
  cases s.get? key with
  | none => rfl
  | some o => simp only [Option.map_some, rowOf, Object.read_write]

theorem existing (h : t.Holds s) (key : Key) : Table.existing k t key = s.existing key := by
  unfold Table.existing Memory.existing
  rw [h.read]
  cases s.get? key <;> rfl

theorem list (h : t.Holds s) : Table.list k t = .ok s.keys := by
  simp only [Table.list, if_pos h.present]
  congr 1
  have hrows : ((t.rows.keys.filter (·.kind = k.name)).map (·.key)).Pairwise (· < ·) := by
    refine List.pairwise_map.mpr ((h.rowsOrdered.filter _).imp_of_mem fun ha hb hlt => ?_)
    -- places of one kind are in the order of their keys
    have hkind := (of_decide_eq_true (List.mem_filter.mp ha).2).trans (of_decide_eq_true (List.mem_filter.mp hb).2).symm
    rcases hlt with hlt | ⟨-, hlt⟩
    · exact absurd (hkind ▸ hlt) (lt_irrefl _)
    · exact hlt
  refine hrows.eq_of_mem_iff h.ordered fun key => ?_
  have hplace : key ∈ (t.rows.keys.filter (·.kind = k.name)).map (·.key) ↔ place k key ∈ t.rows.keys := by
    simp only [List.mem_map, List.mem_filter, decide_eq_true_eq]
    exact ⟨fun ⟨⟨_, _⟩, ⟨hp, hkind⟩, hkey⟩ => by rwa [place, ← hkind, ← hkey], fun hp => ⟨_, ⟨hp, rfl⟩, rfl⟩⟩
  rw [hplace, Catalog.mem_keys_iff, Catalog.mem_keys_iff, h.rows, Option.isSome_map]

theorem write (h : t.Holds s) (o : Object k) : (t.write o).Holds (s.insert o.key o) where
  present := h.present
  rowsOrdered := h.rowsOrdered.insert _ _
  rows key := by
    simp only [Table.write, putRow, Catalog.get?_insert, place_inj, true_and, h.rows]
    split <;> rfl
  ordered := h.ordered.insert _ _
  filed key o' ho := by
    rw [Catalog.get?_insert] at ho
    split at ho
    · rename_i hkey
      cases ho
      exact hkey
    · exact h.filed key o' ho

theorem remove (h : t.Holds s) (key : Key) : (t.remove k key).Holds (s.erase key) where
  present := h.present
  rowsOrdered := h.rowsOrdered.erase _
  rows key' := by
    simp only [Table.remove, Catalog.get?_erase, place_inj, true_and, h.rows]
    split <;> rfl
  ordered := h.ordered.erase _
  filed key' o ho := by
    rw [Catalog.get?_erase] at ho
    split at ho
    · cases ho
    · exact h.filed key' o ho

theorem apply (h : t.Holds s) (outcome : Outcome k) : (t.apply outcome).Holds (s.apply outcome) := by
  cases outcome with
  | stored next => exact h.write next
  | purged last => exact h.remove last.key
  | unchanged => exact h

/-- A call is answered as on the objects that the table holds. -/
theorem perform (h : t.Holds s) (fresh : Fresh) (c : StoreCall k) :
    (t.perform fresh c).1 = (s.perform fresh c).1 ∧ (t.perform fresh c).2.Holds (s.perform fresh c).2 := by
  cases c with
  | get key => exact ⟨h.read key, h⟩
  | list => exact ⟨h.list, h⟩
  | create o =>
    simp only [Table.perform, Memory.perform, Table.create, Memory.create, h.read, bind, Except.bind]
    cases o.create fresh (s.get? o.key) with
    | error fault => exact ⟨rfl, h⟩
    | ok next => exact ⟨rfl, h.write next⟩
  | update o =>
    simp only [Table.perform, Memory.perform, Table.update, Memory.update, h.existing]
    cases s.existing o.key with
    | error fault => exact ⟨rfl, h⟩
    | ok current =>
      dsimp only [bind, Except.bind]
      cases current.update o with
      | error fault => exact ⟨rfl, h⟩
      | ok outcome => exact ⟨rfl, h.apply outcome⟩
  | updateStatus o =>
    simp only [Table.perform, Memory.perform, Table.updateStatus, Memory.updateStatus, h.existing]
    cases hcurrent : s.existing o.key with
    | error fault => exact ⟨rfl, h⟩
    | ok current =>
      dsimp only [bind, Except.bind]
      cases hnext : current.updateStatus o with
      | error fault => exact ⟨rfl, h⟩
      | ok next =>
        -- the row is that of the written object, which has kept the key of the stored one
        have hkey : next.key = o.key :=
          (Object.key_of_updateStatus hnext).trans (h.filed _ _ (Memory.get?_of_existing hcurrent))
        exact ⟨rfl, hkey ▸ h.write next⟩
  | delete key =>
    simp only [Table.perform, Memory.perform, Table.delete, Memory.delete, h.existing]
    cases s.existing key with
    | error fault => exact ⟨rfl, h⟩
    | ok current =>
      dsimp only
      cases current.delete fresh.now with
      | stored next => exact ⟨rfl, h.write next⟩
      | purged last => exact ⟨rfl, h.remove last.key⟩
      | unchanged => exact ⟨rfl, h⟩

end Holds

/-! ## Rows of the other kind -/

/-- What a call may do to a table: write a row of its kind, or take one out. -/
theorem perform_cases (fresh : Fresh) (c : StoreCall k) (t : Table) :
    (t.perform fresh c).2 = t ∨ (∃ o : Object k, (t.perform fresh c).2 = t.write o) ∨
      ∃ key, (t.perform fresh c).2 = t.remove k key := by
  have happly : ∀ outcome : Outcome k, t.apply outcome = t ∨ (∃ o : Object k, t.apply outcome = t.write o) ∨
      ∃ key, t.apply outcome = t.remove k key := by
    rintro (next | last | current)
    · exact .inr (.inl ⟨next, rfl⟩)
    · exact .inr (.inr ⟨last.key, rfl⟩)
    · exact .inl rfl
  cases c with
  | get key => exact .inl rfl
  | list => exact .inl rfl
  | create o =>
    unfold perform create
    dsimp only
    split
    · exact .inr (.inl ⟨_, rfl⟩)
    · exact .inl rfl
  | update o =>
    unfold perform update
    dsimp only
    split
    · exact happly _
    · exact .inl rfl
  | updateStatus o =>
    unfold perform updateStatus
    dsimp only
    split
    · exact .inr (.inl ⟨_, rfl⟩)
    · exact .inl rfl
  | delete key =>
    unfold perform delete
    dsimp only
    split
    · exact .inl rfl
    · split
      · exact happly (.purged _)
      · exact happly _

variable {t : Table} {s : Memory k} {k' : Kind}

theorem Holds.perform_other (h : t.Holds s) (hk : k' ≠ k) (fresh : Fresh) (c : StoreCall k') :
    (t.perform fresh c).2.Holds s := by
  rcases perform_cases fresh c t with he | ⟨o, he⟩ | ⟨key, he⟩
  · rwa [he]
  · rw [he]
    exact { h with
      rowsOrdered := h.rowsOrdered.insert _ _
      rows := fun key => by
        simp only [Table.write, putRow, Catalog.get?_insert, place_inj, hk, false_and, if_false, h.rows] }
  · rw [he]
    exact { h with
      rowsOrdered := h.rowsOrdered.erase _
      rows := fun key => by
        simp only [Table.remove, Catalog.get?_erase, place_inj, hk, false_and, if_false, h.rows] }

end Table

/-! ## Both kinds -/

namespace Rehearsal

open Function (update)

/-- A call on objects of one kind, with what the store hands out. -/
structure Shelf.Call where
  kind : Kind
  call : StoreCall kind
  fresh : Fresh

namespace Shelf

/-- What is answered to a call on a shelf, and what the shelf is then. -/
def answer (c : Call) (s : Shelf) : c.call.Answer := (s.perform c.fresh c.kind c.call).1

def next (c : Call) (s : Shelf) : Shelf := (s.perform c.fresh c.kind c.call).2

theorem perform_table (fresh : Fresh) (c : StoreCall k) (t : Table) :
    (table t).perform fresh k c = ((t.perform fresh c).1, table (t.perform fresh c).2) := by
  cases k <;> rfl

/-- Each call with the answer to it. -/
def answers : List Call → Shelf → List ((c : Call) × c.call.Answer)
  | [], _ => []
  | c :: calls, s => ⟨c, s.answer c⟩ :: (s.next c).answers calls

/-- The shelf holds those objects of each kind. -/
def Holds (objects : (k : Kind) → Memory k) : Shelf → Prop
  | .memory machines clusters =>
    objects .machine = machines ∧ objects .cluster = clusters ∧ ∀ k, (objects k).Filed
  | .table t => ∀ k, t.Holds (objects k)

theorem holds_emptyMemory : emptyMemory.Holds fun _ => Catalog.empty := ⟨rfl, rfl, fun _ => Memory.filed_empty⟩

theorem holds_emptyTable : emptyTable.Holds fun _ => Catalog.empty := fun _ => Table.holds_empty

/-- The objects after a call. -/
def step (c : Call) (objects : (k : Kind) → Memory k) : (k : Kind) → Memory k :=
  update objects c.kind ((objects c.kind).perform c.fresh c.call).2

namespace Holds

variable {objects : (k : Kind) → Memory k} {s : Shelf}

theorem filed (h : s.Holds objects) (k : Kind) : (objects k).Filed := by
  cases s with
  | memory machines clusters => exact h.2.2 k
  | table t => exact (h k).filed

theorem filed_step (h : ∀ k, (objects k).Filed) (c : Call) (k : Kind) : (step c objects k).Filed := by
  by_cases hk : k = c.kind
  · subst hk
    rw [step, Function.update_self]
    exact Memory.perform_filed (h _) _ _
  · rw [step, Function.update_of_ne hk]
    exact h k

/-- A call on a shelf is answered as on the objects that the shelf holds. -/
theorem perform (h : s.Holds objects) (c : Call) :
    s.answer c = ((objects c.kind).perform c.fresh c.call).1 ∧ (s.next c).Holds (step c objects) := by
  cases s with
  | memory machines clusters =>
    obtain ⟨rfl, rfl, hfiled⟩ := h
    obtain ⟨kind, call, fresh⟩ := c
    cases kind with
    | machine => exact ⟨rfl, rfl, rfl, filed_step hfiled _⟩
    | cluster => exact ⟨rfl, rfl, rfl, filed_step hfiled _⟩
  | table t =>
    rw [answer, next, perform_table]
    refine ⟨((h c.kind).perform c.fresh c.call).1, fun k => ?_⟩
    by_cases hk : k = c.kind
    · subst hk
      rw [step, Function.update_self]
      exact ((h _).perform c.fresh c.call).2
    · rw [step, Function.update_of_ne hk]
      exact (h k).perform_other (Ne.symm hk) c.fresh c.call

/-- Shelves that hold the same answer alike. -/
theorem answers_eq {s' : Shelf} (h : s.Holds objects) (h' : s'.Holds objects) (calls : List Call) :
    s.answers calls = s'.answers calls := by
  induction calls generalizing s s' objects with
  | nil => rfl
  | cons c calls ih =>
    obtain ⟨hanswer, hnext⟩ := h.perform c
    obtain ⟨hanswer', hnext'⟩ := h'.perform c
    rw [answers, answers, hanswer, hanswer', ih hnext hnext']

end Holds

/-- One table for both kinds gives the answers of two stores in memory, whatever is called for. -/
theorem answers_table (calls : List Call) : emptyTable.answers calls = emptyMemory.answers calls :=
  holds_emptyTable.answers_eq holds_emptyMemory calls

end Shelf

end Rehearsal

end MachineKeeper
