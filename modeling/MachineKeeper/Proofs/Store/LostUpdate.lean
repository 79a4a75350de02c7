/-
  MachineKeeper.Proofs.Store.LostUpdate — what a write with the current version overwrites.

  Any number of clients make calls on one store, one call after another, and keep what they are
  handed (`Share`). The ids that the store draws are new each time.

  A store numbers the versions of an object from 1, for every object that comes to be under a
  key. So an object that somebody holds is never ahead of the stored one with its id, and at the
  same version it is that one (`Share.Inv`): the versions of one object tell all its states
  apart, as long as they do not run round. The check of a write compares versions alone. Of two
  objects that were stored under a key one after the other it cannot tell the holder of the
  first apart from a holder of the second.

  Proved:
  - `accepted_iff`: an edit of a held object is accepted if and only if that object is stored
    still, or another one in its place that has come to the same version.
  - `overwrites_reborn`: the second case arises. A machine is read, deleted and created anew by
    others, and the reader's update goes through and replaces a spec it has never seen.
-/

import Mathlib.Algebra.Group.Nat.Defs
import Mathlib.Logic.Function.Basic
import MachineKeeper.Proofs.Store.Change

namespace MachineKeeper

variable {k : Kind}

/-- The object that an answer hands out. -/
def StoreCall.handed : (c : StoreCall k) → c.Answer → Option (Object k)
  | .get _, .ok o => o
  | .create _, .ok o => some o
  | .update _, .ok o => some o
  | .updateStatus _, .ok o => some o
  | .delete _, .ok o => o
  | _, _ => none

structure Share (k : Kind) where
  store : Memory k
  /-- The ids drawn so far. -/
  drawn : List String
  calls : Nat
  /-- What each client has been handed. -/
  held : Nat → List (Object k)

namespace Share

def start : Share k := ⟨Catalog.empty, [], 0, fun _ => []⟩

/-- A client makes a call and keeps the object it is handed. -/
def call (l : Share k) (client : Nat) (c : StoreCall k) (fresh : Fresh) : Share k :=
  let answer := l.store.perform fresh c
  ⟨answer.2, fresh.uid :: l.drawn, l.calls + 1,
    Function.update l.held client ((c.handed answer.1).toList ++ l.held client)⟩

inductive Reach : Share k → Prop
  | start : Reach start
  | call {l : Share k} (client : Nat) (c : StoreCall k) (fresh : Fresh) : Reach l → fresh.uid ∉ l.drawn →
      Reach (l.call client c fresh)

end Share

/-- The same object at the same version, whatever else is written into it. -/
def Object.Edit (o e : Object k) : Prop :=
  e.key = o.key ∧ e.metadata.uid = o.metadata.uid ∧ e.metadata.resourceVersion = o.metadata.resourceVersion

/-! ## What a call stores and hands out -/

namespace Memory

variable {s : Memory k}

/-- A stored object is as it was, or new, or the next version of the one before. -/
theorem stored_cases (hs : s.Filed) (fresh : Fresh) (c : StoreCall k) {key : Key} {o : Object k}
    (ho : (s.perform fresh c).2.get? key = some o) :
    s.get? key = some o ∨ (c.key? = some key ∧ o.metadata.uid = fresh.uid ∧ o.metadata.resourceVersion = 1) ∨
      ∃ current, s.get? key = some current ∧ o.metadata.uid = current.metadata.uid ∧
        o.metadata.resourceVersion = current.metadata.resourceVersion + 1 := by
  by_cases hc : c.key? = some key
  · rcases perform_change hs fresh c hc with he | hchange
    · exact .inl (he ▸ ho)
    · rw [ho] at hchange
      generalize s.get? key = before at hchange
      cases hchange with
      | created o => exact .inr (.inl ⟨hc, rfl, rfl⟩)
      | updated current o _ _ => exact .inr (.inr ⟨current, rfl, rfl, rfl⟩)
      | restated current o _ => exact .inr (.inr ⟨current, rfl, rfl, rfl⟩)
      | marked _ current _ _ => exact .inr (.inr ⟨current, rfl, rfl, rfl⟩)
  · rw [get?_perform_of_ne hs fresh c hc] at ho
    exact .inl ho

/-- A call hands out what is stored then, or the last state of what it has purged. -/
theorem handed_cases (hs : s.Filed) (fresh : Fresh) (c : StoreCall k) {o : Object k}
    (ho : c.handed (s.perform fresh c).1 = some o) :
    (s.perform fresh c).2.get? o.key = some o ∨
      ∃ current, s.get? o.key = some current ∧ o.metadata.uid = current.metadata.uid ∧
        (s.perform fresh c).2.get? o.key = none := by
  cases c with
  | get key =>
    have hkey : o.key = key := hs key o ho
    rw [hkey]
    exact .inl ho
  | list => cases ho
  | create e =>
    left
    simp only [perform, create_eq] at ho ⊢
    cases hg : s.get? e.key with
    | some current => simp [hg, StoreCall.handed] at ho
    | none =>
      simp only [hg, StoreCall.handed, Option.some.injEq] at ho ⊢
      subst ho
      rw [Object.key_created, Catalog.get?_insert, if_pos rfl]
  | update e =>
    simp only [perform, update_eq] at ho ⊢
    cases hg : s.get? e.key with
    | none => simp [hg, StoreCall.handed] at ho
    | some current =>
      by_cases hv : current.Current e
      · simp only [hg, hv, if_true, StoreCall.handed, Option.some.injEq] at ho ⊢
        subst ho
        by_cases hp : (current.updated e).purgeable = true
        · right
          refine ⟨current, hg, rfl, ?_⟩
          rw [Object.key_updated, if_pos hp, Catalog.get?_erase, if_pos rfl]
        · left
          rw [Object.key_updated, if_neg hp, Catalog.get?_insert, if_pos rfl]
      · simp [hg, hv, StoreCall.handed] at ho
  | updateStatus e =>
    left
    simp only [perform, updateStatus_eq] at ho ⊢
    cases hg : s.get? e.key with
    | none => simp [hg, StoreCall.handed] at ho
    | some current =>
      by_cases hv : current.Current e
      · simp only [hg, hv, if_true, StoreCall.handed, Option.some.injEq] at ho ⊢
        subst ho
        rw [Object.key_statusUpdated, Catalog.get?_insert, if_pos (hs _ current hg).symm]
      · simp [hg, hv, StoreCall.handed] at ho
  | delete key =>
    left
    simp only [perform, delete_eq] at ho ⊢
    cases hg : s.get? key with
    | none => simp [hg, StoreCall.handed] at ho
    | some current =>
      have hkey := hs key current hg
      by_cases hf : current.metadata.finalizers = []
      · simp [hg, hf, StoreCall.handed] at ho
      · by_cases hd : current.metadata.deletionRequested = true
        · simp only [hg, hf, hd, if_false, if_true, StoreCall.handed, Option.some.injEq] at ho ⊢
          subst ho
          rw [hkey, hg]
        · simp only [hg, if_neg hf, if_neg hd, StoreCall.handed, Option.some.injEq] at ho ⊢
          subst ho
          rw [Object.key_deleted, Catalog.get?_insert, if_pos rfl]

end Memory

/-! ## The invariant -/

namespace Share

structure Inv (l : Share k) : Prop where
  filed : l.store.Filed
  drawn : ∀ key o, l.store.get? key = some o → o.metadata.uid ∈ l.drawn
  /-- An id is that of one stored object at most. -/
  apart : ∀ {a b o o'}, l.store.get? a = some o → l.store.get? b = some o' →
    o.metadata.uid = o'.metadata.uid → a = b
  versionLe : ∀ key o, l.store.get? key = some o → o.metadata.resourceVersion.toNat ≤ l.calls
  heldDrawn : ∀ client, ∀ o ∈ l.held client, o.metadata.uid ∈ l.drawn
  /-- A held object is an earlier state of the stored one with its id, or that very state. -/
  heldLe : ∀ client, ∀ o ∈ l.held client, ∀ key current, l.store.get? key = some current →
    current.metadata.uid = o.metadata.uid →
    current = o ∨ o.metadata.resourceVersion.toNat < current.metadata.resourceVersion.toNat

theorem inv_start : Inv (start : Share k) where
  filed := Memory.filed_empty
  drawn _ _ h := by cases h
  apart h := by cases h
  versionLe _ _ h := by cases h
  heldDrawn _ _ h := by cases h
  heldLe _ _ h := by cases h

variable {l : Share k}

/-- What a call leaves stored: what was, or its next version, or the first version under a new id. -/
theorem Inv.stored_cases (hi : l.Inv) (hcalls : l.calls + 1 < 2 ^ 64) (c : StoreCall k) (fresh : Fresh) {key : Key}
    {o : Object k} (ho : (l.store.perform fresh c).2.get? key = some o) :
    (c.key? = some key ∧ o.metadata.uid = fresh.uid ∧ o.metadata.resourceVersion.toNat = 1) ∨
      ∃ current, l.store.get? key = some current ∧ o.metadata.uid = current.metadata.uid ∧
        (o = current ∨ o.metadata.resourceVersion.toNat = current.metadata.resourceVersion.toNat + 1) := by
  rcases Memory.stored_cases hi.filed fresh c ho with h | ⟨hc, hu, hv⟩ | ⟨current, hc, hu, hv⟩
  · exact .inr ⟨o, h, rfl, .inl rfl⟩
  · exact .inl ⟨hc, hu, by rw [hv]; rfl⟩
  · refine .inr ⟨current, hc, hu, .inr ?_⟩
    rw [hv]
    exact version_succ (hi.versionLe key current hc) hcalls

theorem Inv.apart_call (hi : l.Inv) (hcalls : l.calls + 1 < 2 ^ 64) (c : StoreCall k) {fresh : Fresh}
    (hfresh : fresh.uid ∉ l.drawn) {a b : Key} {o o' : Object k} (ha : (l.store.perform fresh c).2.get? a = some o)
    (hb : (l.store.perform fresh c).2.get? b = some o') (hu : o.metadata.uid = o'.metadata.uid) : a = b := by
  rcases hi.stored_cases hcalls c fresh ha with ⟨hca, hua, -⟩ | ⟨ca, hga, hua, -⟩ <;>
    rcases hi.stored_cases hcalls c fresh hb with ⟨hcb, hub, -⟩ | ⟨cb, hgb, hub, -⟩
  · rw [hca] at hcb
    exact Option.some.inj hcb
  · have := hi.drawn b cb hgb
    rw [← hub, ← hu, hua] at this
    exact absurd this hfresh
  · have := hi.drawn a ca hga
    rw [← hua, hu, hub] at this
    exact absurd this hfresh
  · exact hi.apart hga hgb (by rw [← hua, ← hub, hu])

/-- What is handed out is stored, or its id is no longer. -/
theorem Inv.eq_of_handed (hi : l.Inv) (hcalls : l.calls + 1 < 2 ^ 64) (c : StoreCall k) {fresh : Fresh}
    (hfresh : fresh.uid ∉ l.drawn) {o current : Object k} {key : Key}
    (ho : c.handed (l.store.perform fresh c).1 = some o)
    (hc : (l.store.perform fresh c).2.get? key = some current) (hu : current.metadata.uid = o.metadata.uid) :
    current = o := by
  rcases Memory.handed_cases hi.filed fresh c ho with hstored | ⟨last, hlast, hul, hnone⟩
  · have hkey := hi.apart_call hcalls c hfresh hc hstored hu
    rw [hkey, hstored] at hc
    exact (Option.some.inj hc).symm
  · have hdrawn := hi.drawn o.key last hlast
    rcases hi.stored_cases hcalls c fresh hc with ⟨-, hf, -⟩ | ⟨before, hbefore, hub, -⟩
    · rw [← hul, ← hu, hf] at hdrawn
      exact absurd hdrawn hfresh
    · have hkey := hi.apart hbefore hlast (by rw [← hub, hu, hul])
      rw [hkey, hnone] at hc
      cases hc

theorem mem_held {client other : Nat} {c : StoreCall k} {fresh : Fresh} {o : Object k}
    (h : o ∈ (l.call client c fresh).held other) :
    c.handed (l.store.perform fresh c).1 = some o ∨ ∃ client, o ∈ l.held client := by
  simp only [call] at h
  by_cases he : other = client
  · subst he
    rw [Function.update_self, List.mem_append, Option.mem_toList] at h
    exact h.imp id fun h => ⟨other, h⟩
  · rw [Function.update_of_ne he] at h
    exact .inr ⟨other, h⟩

theorem Inv.call (hi : l.Inv) (hcalls : l.calls + 1 < 2 ^ 64) (client : Nat) (c : StoreCall k) {fresh : Fresh}
    (hfresh : fresh.uid ∉ l.drawn) : (l.call client c fresh).Inv where
  filed := Memory.perform_filed hi.filed fresh c
  drawn key o ho := by
    rcases hi.stored_cases hcalls c fresh ho with ⟨-, hu, -⟩ | ⟨current, hc, hu, -⟩
    · rw [hu]
      exact List.mem_cons_self
    · rw [hu]
      exact List.mem_cons_of_mem _ (hi.drawn key current hc)
  apart := hi.apart_call hcalls c hfresh
  versionLe key o ho := by
    simp only [Share.call]
    rcases hi.stored_cases hcalls c fresh ho with ⟨-, -, hv⟩ | ⟨current, hc, -, rfl | hv⟩
    · omega
    · have := hi.versionLe key o hc
      omega
    · have := hi.versionLe key current hc
      omega
  heldDrawn other o ho := by
    rcases mem_held ho with hnew | ⟨client, hold⟩
    · rcases Memory.handed_cases hi.filed fresh c hnew with hstored | ⟨last, hlast, hu, -⟩
      · rcases hi.stored_cases hcalls c fresh hstored with ⟨-, hu, -⟩ | ⟨current, hc, hu, -⟩
        · rw [hu]
          exact List.mem_cons_self
        · rw [hu]
          exact List.mem_cons_of_mem _ (hi.drawn _ current hc)
      · rw [hu]
        exact List.mem_cons_of_mem _ (hi.drawn _ last hlast)
    · exact List.mem_cons_of_mem _ (hi.heldDrawn client o hold)
  heldLe other o ho key current hc hu := by
    rcases mem_held ho with hnew | ⟨client, hold⟩
    · exact .inl (hi.eq_of_handed hcalls c hfresh hnew hc hu)
    · rcases hi.stored_cases hcalls c fresh hc with ⟨-, hf, -⟩ | ⟨before, hb, hub, hnext⟩
      · have := hi.heldDrawn client o hold
        rw [← hu, hf] at this
        exact absurd this hfresh
      · rcases hi.heldLe client o hold key before hb (by rw [← hub, hu]) with rfl | hlt
        · rcases hnext with rfl | hv
          · exact .inl rfl
          · exact .inr (by omega)
        · rcases hnext with rfl | hv
          · exact .inr hlt
          · exact .inr (by omega)

theorem inv_of_reach (h : Reach l) (hcalls : l.calls < 2 ^ 64) : l.Inv := by
  induction h with
  | start => exact inv_start
  | call client c fresh _ hfresh ih =>
    have hlt : _ + 1 < 2 ^ 64 := hcalls
    exact (ih (by omega)).call hlt client c hfresh

/-! ## Accepted writes -/

theorem isOk_update_iff {s : Memory k} {e : Object k} :
    (s.update e).1.isOk ↔ ∃ current, s.get? e.key = some current ∧ current.Current e := by
  rw [Memory.update_eq]
  cases s.get? e.key with
  | none => simp [Except.isOk, Except.toBool]
  | some current => by_cases hv : current.Current e <;> simp [hv, Except.isOk, Except.toBool]

theorem isOk_updateStatus_iff {s : Memory k} {e : Object k} :
    (s.updateStatus e).1.isOk ↔ ∃ current, s.get? e.key = some current ∧ current.Current e := by
  rw [Memory.updateStatus_eq]
  cases s.get? e.key with
  | none => simp [Except.isOk, Except.toBool]
  | some current => by_cases hv : current.Current e <;> simp [hv, Except.isOk, Except.toBool]

/-- Under the key of an object that very object is stored, or another one, with an id of its own,
that has come to the same version. -/
def Matches (l : Share k) (o : Object k) : Prop :=
  ∃ current, l.store.get? o.key = some current ∧ (current = o ∨
    current.metadata.uid ≠ o.metadata.uid ∧ current.metadata.resourceVersion = o.metadata.resourceVersion)

theorem current_iff (hi : l.Inv) {client : Nat} {o e : Object k} (ho : o ∈ l.held client) (he : o.Edit e) :
    (∃ current, l.store.get? e.key = some current ∧ current.Current e) ↔ l.Matches o := by
  obtain ⟨hkey, -, hv⟩ := he
  rw [hkey]
  refine exists_congr fun current => and_congr_right fun hc => ?_
  rw [Object.Current, hv]
  constructor
  · intro heq
    by_cases hu : current.metadata.uid = o.metadata.uid
    · rcases hi.heldLe client o ho o.key current hc hu with h | hlt
      · exact .inl h
      · rw [heq] at hlt
        exact absurd hlt (Nat.lt_irrefl _)
    · exact .inr ⟨hu, heq.symm⟩
  · rintro (rfl | ⟨-, heq⟩)
    · rfl
    · exact heq.symm

/-- An edit of an object that a client was handed is accepted if and only if that very object is
stored, or another one in its place matches it. -/
theorem accepted_iff (h : Reach l) (hcalls : l.calls < 2 ^ 64) {client : Nat} {o e : Object k}
    (ho : o ∈ l.held client) (he : o.Edit e) :
    ((l.store.update e).1.isOk ↔ l.Matches o) ∧ ((l.store.updateStatus e).1.isOk ↔ l.Matches o) := by
  have hi := inv_of_reach h hcalls
  exact ⟨isOk_update_iff.trans (current_iff hi ho he), isOk_updateStatus_iff.trans (current_iff hi ho he)⟩

/-- A client holds the machine that it has created, and then it is deleted and created anew by another. -/
def reborn : Share .machine :=
  let key : Key := ⟨"default", "w1"⟩
  ((start.call 0 (.create (newMachine key [])) ⟨"u1", someTime⟩).call 1 (.delete key) ⟨"u2", someTime⟩).call 1
    (.create { newMachine key [] with spec.image := "debian" }) ⟨"u3", someTime⟩

theorem reach_reborn : Reach reborn :=
  .call 1 _ _ (.call 1 _ _ (.call 0 _ _ .start (by decide)) (by decide)) (by decide)

/-- What the first client holds, with a marker put on. -/
def reread : Machine :=
  (((newMachine ⟨"default", "w1"⟩ []).created ⟨"u1", someTime⟩).addMarker "backup").1

theorem accepted_iff_reborn :
    ∃ o ∈ reborn.held 0, o.Edit reread ∧ ((reborn.store.update reread).1.isOk ↔ reborn.Matches o) :=
  have ho : (newMachine ⟨"default", "w1"⟩ []).created ⟨"u1", someTime⟩ ∈ reborn.held 0 := by decide
  ⟨_, ho, ⟨rfl, rfl, rfl⟩, (accepted_iff reach_reborn (by decide) ho ⟨rfl, rfl, rfl⟩).1⟩

/-- The update of the first client goes through, and the image that the second has asked for is lost. -/
theorem overwrites_reborn :
    Reach reborn ∧ (∃ o ∈ reborn.held 0, o.Edit reread ∧ reborn.store.get? o.key ≠ some o) ∧
      (reborn.store.update reread).1.isOk ∧
      (reborn.store.get? reread.key).map (·.spec.image) = some "debian" ∧
      ((reborn.store.update reread).2.get? reread.key).map (·.spec.image) = some "" := by
  have ho : (newMachine ⟨"default", "w1"⟩ []).created ⟨"u1", someTime⟩ ∈ reborn.held 0 := by decide
  exact ⟨reach_reborn, ⟨_, ho, ⟨rfl, rfl, rfl⟩, by decide⟩, by decide, by decide, by decide⟩

end Share

end MachineKeeper
