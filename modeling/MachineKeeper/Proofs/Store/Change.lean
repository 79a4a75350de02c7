/-
  MachineKeeper.Proofs.Store.Change — what one call makes of what a store holds.

  A store is a family of places, one per key, and a call acts on the place of its own key only.
  An object is filed under its own key (`Filed`), at every time.

  `Change` lists what an accepted call does to its place: a new object comes in, a stored one is
  written (its metadata and spec, its status, or its deletion mark), or it goes. Everything else
  leaves the place as it is. Each clause says under what condition the call is accepted, so
  invariants over places are shown clause by clause.

  Proved:
  - `perform_filed`: no call misfiles an object.
  - `get?_perform_of_ne`: a call leaves the places of other keys alone.
  - `perform_change`: at its own place a call is a `Change`, or does nothing.
-/

import MachineKeeper.Store.Memory

namespace MachineKeeper

variable {k : Kind}

/-! ## The key of a call -/

/-- The place a call acts on; listing acts on none. -/
def StoreCall.key? : StoreCall k → Option Key
  | .get key => some key
  | .list => none
  | .create o => some o.key
  | .update o => some o.key
  | .updateStatus o => some o.key
  | .delete key => some key

/-- A version that is at most the number of calls so far does not run round at the next one. -/
theorem version_succ {v : UInt64} {n : Nat} (hv : v.toNat ≤ n) (hn : n + 1 < UInt64.size) :
    (v + 1).toNat = v.toNat + 1 := by
  have hone : (1 : UInt64).toNat = 1 := rfl
  have hlt : v.toNat + 1 < UInt64.size := Nat.lt_of_le_of_lt (Nat.succ_le_succ hv) hn
  rw [UInt64.toNat_add, hone]
  exact Nat.mod_eq_of_lt hlt

namespace Object

@[simp] theorem key_created (fresh : Fresh) (o : Object k) : (o.created fresh).key = o.key := rfl
@[simp] theorem key_updated (current o : Object k) : (current.updated o).key = o.key := rfl
@[simp] theorem key_statusUpdated (current o : Object k) : (current.statusUpdated o).key = current.key := rfl
@[simp] theorem key_deleted (now : Timestamp) (current : Object k) : (current.deleted now).key = current.key := rfl

/-- The version that a write carries is the current one. -/
def Current (current o : Object k) : Prop :=
  o.metadata.resourceVersion = current.metadata.resourceVersion

instance (current o : Object k) : Decidable (current.Current o) :=
  inferInstanceAs (Decidable (_ = _))

end Object

/-- What an accepted call makes of the object at its place. -/
inductive Change (fresh : Fresh) : StoreCall k → Option (Object k) → Option (Object k) → Prop
  | created (o : Object k) : Change fresh (.create o) none (some (o.created fresh))
  | updated (current o : Object k) : current.Current o → ¬(current.updated o).purgeable →
      Change fresh (.update o) (some current) (some (current.updated o))
  /-- The last marker of a deleted object goes. -/
  | released (current o : Object k) : current.Current o → (current.updated o).purgeable →
      Change fresh (.update o) (some current) none
  | restated (current o : Object k) : current.Current o →
      Change fresh (.updateStatus o) (some current) (some (current.statusUpdated o))
  | marked (key : Key) (current : Object k) : current.metadata.finalizers ≠ [] →
      ¬current.metadata.deletionRequested →
      Change fresh (.delete key) (some current) (some (current.deleted fresh.now))
  | purged (key : Key) (current : Object k) : current.metadata.finalizers = [] →
      Change fresh (.delete key) (some current) none

namespace Memory

/-- Every object is at the place of its own key. -/
def Filed (s : Memory k) : Prop := ∀ key o, s.get? key = some o → o.key = key

/-! ## One equation per write -/

theorem create_eq (fresh : Fresh) (o : Object k) (s : Memory k) :
    s.create fresh o = match s.get? o.key with
      | some _ => (.error (.alreadyExists k o.key), s)
      | none => (.ok (o.created fresh), s.insert o.key (o.created fresh)) := by
  unfold create Object.create
  cases s.get? o.key <;> rfl

theorem update_eq (o : Object k) (s : Memory k) :
    s.update o = match s.get? o.key with
      | none => (.error (.notFound k o.key), s)
      | some current =>
        if current.Current o then
          (.ok (current.updated o),
            if (current.updated o).purgeable then s.erase o.key else s.insert o.key (current.updated o))
        else (.error (.conflict k current.key o.metadata.resourceVersion current.metadata.resourceVersion), s) := by
  unfold update existing
  cases s.get? o.key with
  | none => rfl
  | some current =>
    by_cases hv : o.metadata.resourceVersion = current.metadata.resourceVersion
    · by_cases hp : (current.updated o).purgeable = true
      · simp [Object.update, Object.checkVersion, Object.Current, hv, hp, bind, Except.bind, apply, Outcome.object]
      · simp [Object.update, Object.checkVersion, Object.Current, hv, hp, bind, Except.bind, apply, Outcome.object]
    · simp [Object.update, Object.checkVersion, Object.Current, hv, bind, Except.bind]

theorem updateStatus_eq (o : Object k) (s : Memory k) :
    s.updateStatus o = match s.get? o.key with
      | none => (.error (.notFound k o.key), s)
      | some current =>
        if current.Current o then (.ok (current.statusUpdated o), s.insert o.key (current.statusUpdated o))
        else (.error (.conflict k current.key o.metadata.resourceVersion current.metadata.resourceVersion), s) := by
  unfold updateStatus existing
  cases s.get? o.key with
  | none => rfl
  | some current =>
    by_cases hv : o.metadata.resourceVersion = current.metadata.resourceVersion
    · simp [Object.updateStatus, Object.checkVersion, Object.Current, hv, bind, Except.bind]
    · simp [Object.updateStatus, Object.checkVersion, Object.Current, hv, bind, Except.bind]

theorem delete_eq (now : Timestamp) (key : Key) (s : Memory k) :
    s.delete now key = match s.get? key with
      | none => (.error (.notFound k key), s)
      | some current =>
        if current.metadata.finalizers = [] then (.ok none, s.erase current.key)
        else if current.metadata.deletionRequested then (.ok (some current), s)
        else (.ok (some (current.deleted now)), s.insert current.key (current.deleted now)) := by
  unfold delete existing
  cases s.get? key with
  | none => rfl
  | some current =>
    by_cases hf : current.metadata.finalizers = []
    · simp [Object.delete, hf, apply]
    · by_cases hd : current.metadata.deletionRequested = true
      · simp [Object.delete, hf, hd, apply, Outcome.object]
      · simp [Object.delete, hf, hd, apply, Outcome.object]

/-! ## Looking up after an accepted write -/

theorem get?_create {s : Memory k} {o : Object k} (fresh : Fresh) (h : s.get? o.key = none) (key : Key) :
    (s.create fresh o).2.get? key = if o.key = key then some (o.created fresh) else s.get? key := by
  simp only [create_eq, h, Catalog.get?_insert]

theorem get?_delete {s : Memory k} {key : Key} {o : Object k} (now : Timestamp) (h : s.get? key = some o)
    (hk : o.key = key) (hf : o.metadata.finalizers ≠ []) (hd : ¬o.metadata.deletionRequested) (key' : Key) :
    (s.delete now key).2.get? key' = if key = key' then some (o.deleted now) else s.get? key' := by
  simp only [delete_eq, h, if_neg hf, if_neg hd, hk, Catalog.get?_insert]

/-! ## The place of the call -/

/-- At its own place an accepted call is a `Change`; any other call does nothing. -/
theorem perform_change {s : Memory k} (hs : s.Filed) (fresh : Fresh) (c : StoreCall k) {key : Key}
    (hc : c.key? = some key) :
    (s.perform fresh c).2.get? key = s.get? key ∨
      Change fresh c (s.get? key) ((s.perform fresh c).2.get? key) := by
  cases c with
  | get _ => exact .inl rfl
  | list => cases hc
  | create o =>
    cases hc
    simp only [perform, create_eq]
    cases hg : s.get? o.key with
    | some current => exact .inl hg
    | none =>
      right
      rw [Catalog.get?_insert, if_pos rfl]
      exact .created o
  | update o =>
    cases hc
    simp only [perform, update_eq]
    cases hg : s.get? o.key with
    | none => exact .inl hg
    | some current =>
      by_cases hv : current.Current o
      · right
        by_cases hp : (current.updated o).purgeable = true
        · simp only [hv, hp, if_true, Catalog.get?_erase]
          exact .released current o hv hp
        · simp only [if_pos hv, if_neg hp, Catalog.get?_insert, if_true]
          exact .updated current o hv hp
      · simp only [hv, if_false]
        exact .inl hg
  | updateStatus o =>
    cases hc
    simp only [perform, updateStatus_eq]
    cases hg : s.get? o.key with
    | none => exact .inl hg
    | some current =>
      by_cases hv : current.Current o
      · right
        simp only [hv, if_true, Catalog.get?_insert]
        exact .restated current o hv
      · simp only [hv, if_false]
        exact .inl hg
  | delete key' =>
    cases hc
    simp only [perform, delete_eq]
    cases hg : s.get? key with
    | none => exact .inl hg
    | some current =>
      have hk : current.key = key := hs key current hg
      by_cases hf : current.metadata.finalizers = []
      · right
        simp only [hf, if_true, hk, Catalog.get?_erase]
        exact .purged key current hf
      · by_cases hd : current.metadata.deletionRequested = true
        · simp only [hf, hd, if_false, if_true]
          exact .inl hg
        · right
          simp only [if_neg hf, if_neg hd, hk, Catalog.get?_insert, if_true]
          exact .marked key current hf hd

/-- A call leaves every other place as it is. -/
theorem get?_perform_of_ne {s : Memory k} (hs : s.Filed) (fresh : Fresh) (c : StoreCall k) {key : Key}
    (hc : c.key? ≠ some key) : (s.perform fresh c).2.get? key = s.get? key := by
  cases c with
  | get _ => rfl
  | list => rfl
  | create o =>
    have hk : o.key ≠ key := fun h => hc (congrArg some h)
    simp only [perform, create_eq]
    cases s.get? o.key <;> simp [Catalog.get?_insert, hk]
  | update o =>
    have hk : o.key ≠ key := fun h => hc (congrArg some h)
    simp only [perform, update_eq]
    cases s.get? o.key with
    | none => rfl
    | some current => by_cases hv : current.Current o <;> by_cases hp : (current.updated o).purgeable = true <;>
        simp [hv, hp, Catalog.get?_insert, Catalog.get?_erase, hk]
  | updateStatus o =>
    have hk : o.key ≠ key := fun h => hc (congrArg some h)
    simp only [perform, updateStatus_eq]
    cases s.get? o.key with
    | none => rfl
    | some current => by_cases hv : current.Current o <;> simp [hv, Catalog.get?_insert, hk]
  | delete key' =>
    have hk : key' ≠ key := fun h => hc (congrArg some h)
    simp only [perform, delete_eq]
    cases hg : s.get? key' with
    | none => rfl
    | some current =>
      have hk' : current.key ≠ key := hs key' current hg ▸ hk
      by_cases hf : current.metadata.finalizers = [] <;> by_cases hd : current.metadata.deletionRequested = true <;>
        simp [hf, hd, Catalog.get?_insert, Catalog.get?_erase, hk']

theorem filed_empty : Filed (Catalog.empty : Memory k) := by
  intro key o h
  cases h

/-- What a change leaves at a place belongs there. -/
theorem key_of_change {fresh : Fresh} {c : StoreCall k} {before after : Option (Object k)} {key : Key}
    (h : Change fresh c before after) (hc : c.key? = some key) (hb : ∀ o, before = some o → o.key = key) :
    ∀ o, after = some o → o.key = key := by
  intro o ho
  cases h with
  | created o' => cases ho; cases hc; rfl
  | updated current o' _ _ => cases ho; cases hc; rfl
  | released => cases ho
  | restated current o' _ => cases ho; exact hb current rfl
  | marked key' current _ _ => cases ho; exact hb current rfl
  | purged => cases ho

theorem perform_filed {s : Memory k} (hs : s.Filed) (fresh : Fresh) (c : StoreCall k) :
    (s.perform fresh c).2.Filed := by
  intro key o ho
  by_cases hc : c.key? = some key
  · rcases perform_change hs fresh c hc with h | h
    · exact hs key o (h ▸ ho)
    · exact key_of_change h hc (hs key) o ho
  · rw [get?_perform_of_ne hs fresh c hc] at ho
    exact hs key o ho

end Memory

/-! ## A first write -/

/-- A machine as a client first writes it. -/
def newMachine (key : Key) (markers : List String) : Machine where
  metadata := ⟨key.name, key.space, "", 0, 0, none, none, markers⟩
  spec := ⟨"", 0, 0, 0⟩
  status := ⟨[], ""⟩

def someTime : Timestamp := ⟨⟨2026, 1, 1, by decide⟩, 0, 0, 0, 0, by decide⟩

end MachineKeeper
