/-
  MachineKeeper.Proofs.Rehearsal.Distinct — a listing names no key twice.

  What is stored is kept in the order of its keys, with one entry for each (`Shelf.Sorted`). Every
  call leaves it so, whoever makes it and whatever another writer does before it, and texts that
  are no objects are in their places as well. So a listing has no key twice.

  Proved:
  - `sorted_perform`: every call leaves the shelf in order.
  - `Sorted.nodup`: a listing of such a shelf names each key once.
  - `sorted_of_reaches`: whatever plans do together, the shelf stays in order.
-/

import MachineKeeper.Proofs.Rehearsal.Schedules
import MachineKeeper.Proofs.Store.Refinement

namespace MachineKeeper

variable {k : Kind}

/-- What a call may do to what is stored of a kind. -/
theorem Memory.perform_cases (fresh : Fresh) (c : StoreCall k) (s : Memory k) :
    (s.perform fresh c).2 = s ∨ (∃ key o, (s.perform fresh c).2 = s.insert key o) ∨
      ∃ key, (s.perform fresh c).2 = s.erase key := by
  have happly : ∀ outcome : Outcome k, s.apply outcome = s ∨ (∃ key o, s.apply outcome = s.insert key o) ∨
      ∃ key, s.apply outcome = s.erase key := by
    intro outcome
    cases outcome with
    | stored next => exact .inr (.inl ⟨_, _, rfl⟩)
    | purged last => exact .inr (.inr ⟨_, rfl⟩)
    | unchanged => exact .inl rfl
  cases c with
  | get key => exact .inl rfl
  | list => exact .inl rfl
  | create o =>
    unfold perform create
    dsimp only
    split
    · exact .inr (.inl ⟨_, _, rfl⟩)
    · exact .inl rfl
  | update o =>
    unfold perform update
    dsimp only
    split
    · exact happly _
    · exact .inl rfl
  | updateStatus o =>
    unfold perform updateStatus
    dsimp only
    split
    · exact .inr (.inl ⟨_, _, rfl⟩)
    · exact .inl rfl
  | delete key =>
    unfold perform delete
    dsimp only
    split
    · exact .inl rfl
    · split
      · exact happly (.purged _)
      · exact happly _

namespace Rehearsal

namespace Shelf

/-- All entries are in the order of their keys. -/
def Sorted : Shelf → Prop
  | .memory machines clusters => machines.Ordered ∧ clusters.Ordered
  | .table t => t.rows.Ordered

theorem sorted_emptyMemory : emptyMemory.Sorted := ⟨Catalog.ordered_empty, Catalog.ordered_empty⟩

theorem sorted_emptyTable : emptyTable.Sorted := Catalog.ordered_empty

theorem ordered_perform {s : Memory k} (h : s.Ordered) (fresh : Fresh) (c : StoreCall k) :
    (s.perform fresh c).2.Ordered := by
  rcases Memory.perform_cases fresh c s with he | ⟨key, o, he⟩ | ⟨key, he⟩
  · rwa [he]
  · rw [he]
    exact h.insert key o
  · rw [he]
    exact h.erase key

theorem sorted_perform {s : Shelf} (h : s.Sorted) (fresh : Fresh) (c : StoreCall k) : (s.perform fresh k c).2.Sorted := by
  cases s with
  | memory machines clusters =>
    cases k with
    | machine => exact ⟨ordered_perform h.1 fresh c, h.2⟩
    | cluster => exact ⟨h.1, ordered_perform h.2 fresh c⟩
  | table t =>
    rw [perform_table]
    rcases Table.perform_cases fresh c t with he | ⟨o, he⟩ | ⟨key, he⟩
    · rw [he]
      exact h
    · rw [he]
      exact h.insert _ _
    · rw [he]
      exact h.erase _

theorem nodup_of_ordered {s : Memory k} (h : s.Ordered) : s.keys.Nodup :=
  List.Pairwise.imp (fun hlt => ne_of_irrefl (r := (· < ·)) hlt) h

theorem Sorted.nodup {s : Shelf} (h : s.Sorted) {fresh : Fresh} {keys : List Key}
    (hlist : (s.perform fresh k .list).1 = .ok keys) : keys.Nodup := by
  cases s with
  | memory machines clusters =>
    cases k with
    | machine =>
      cases hlist
      exact nodup_of_ordered h.1
    | cluster =>
      cases hlist
      exact nodup_of_ordered h.2
  | table t =>
    rw [perform_table] at hlist
    simp only [Table.perform, Table.list] at hlist
    split at hlist
    · cases hlist
      have hplaces : (t.rows.keys.filter (·.kind = k.name)).Nodup :=
        List.Pairwise.imp (fun hlt => ne_of_irrefl (r := (· < ·)) hlt) (h.sublist List.filter_sublist)
      refine List.Nodup.map_on (fun a ha b hb hkey => ?_) hplaces
      have hkinds : a.kind = b.kind := by
        rw [List.mem_filter, decide_eq_true_eq] at ha hb
        exact ha.2.trans hb.2.symm
      cases a
      cases b
      cases hkinds
      cases hkey
      rfl
    · cases hlist

end Shelf

/-! ## Whoever calls -/

variable {w w' : World}

theorem sorted_storeQuietly (h : w.shelf.Sorted) (c : StoreCall k) : (w.storeQuietly c).2.shelf.Sorted :=
  Shelf.sorted_perform h w.fresh c

theorem sorted_disturb (h : w.shelf.Sorted) (d : Disturbance) (key : Key) : (w.disturb d key).shelf.Sorted := by
  unfold World.disturb
  split
  · next m w' hget =>
    have hread : w'.shelf.Sorted := by
      have := sorted_storeQuietly h (.get (k := .machine) key)
      rwa [hget] at this
    cases d with
    | touch => exact sorted_storeQuietly hread _
    | delete => exact sorted_storeQuietly hread _
    | purge => exact sorted_storeQuietly (sorted_storeQuietly hread _) _
  · next w' hget =>
    have := sorted_storeQuietly h (.get (k := .machine) key)
    rwa [hget] at this

theorem sorted_disturbed (h : w.shelf.Sorted) (c : StoreCall k) : (w.disturbed k c).shelf.Sorted := by
  unfold World.disturbed
  split
  · split
    · exact h
    · refine sorted_disturb ?_ _ _
      exact h
  · split
    · exact h
    · refine sorted_disturb ?_ _ _
      exact h
  · exact h

theorem sorted_store (h : w.shelf.Sorted) (c : StoreCall k) : (w.store k c).2.shelf.Sorted := by
  have hstored := sorted_storeQuietly (sorted_disturbed h c) c
  simp only [World.store, World.countUid]
  split <;> exact hstored

theorem session_shelf (ctx : Context) (c : Daemon.SessionCall) (w : World) : (w.session ctx c).2.shelf = w.shelf := by
  cases c with
  | enter =>
    simp only [World.session]
    split <;> rfl
  | exchange q =>
    simp only [World.session]
    split <;> simp [catchUp_eq, World.record]
  | _ => rfl

theorem sorted_call (h : w.shelf.Sorted) (c : World.Call) : (w.perform c).2.shelf.Sorted := by
  cases c with
  | store k c => exact sorted_store h c
  | session ctx c =>
    rw [World.perform, session_shelf]
    exact h
  | pause ctx duration =>
    simp only [World.perform]
    split
    · exact h
    · split
      · exact h
      · rw [catchUp_eq]
        exact h
  | cancel ctx =>
    simp only [World.perform]
    split <;> exact h
  | _ => exact h

theorem sorted_of_reaches {α : Type} {c d : Troupe α} (h : Troupe.Reaches c d) (hc : c.world.shelf.Sorted) :
    d.world.shelf.Sorted := by
  induction h with
  | refl => exact hc
  | tail _ hstep ih =>
    cases hstep with
    | move hmove =>
      cases hmove with
      | @goes c _ _ _ _ hperform | @waits c _ _ _ _ _ _ hperform | @queues c _ _ _ _ hperform =>
        have hsorted := sorted_call ih c
        rw [hperform] at hsorted
        exact hsorted
      | _ => exact ih
    | time => exact ih

end Rehearsal

end MachineKeeper
