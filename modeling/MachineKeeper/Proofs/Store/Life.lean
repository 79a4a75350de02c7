/-
  MachineKeeper.Proofs.Store.Life — the life of a stored object.

  From its creation to the time it is purged an object is stored under one key. What a call makes
  of the place it acts on depends on what is stored there alone (`StoreCall.effect`): whether the
  call is accepted, and what is stored afterwards. A call that acts on another place, or on
  objects of the other kind, leaves the object as it is.

  The version counts the writes of the object and the generation those that change its spec. A
  generation is a signed number of 64 bits, so both count right for as long as there have been
  fewer than 2^63 calls (`Sound`).

  Proved:
  - `perform_effect`: a call on a store has the effect on its own place.
  - `turn_of_holds`: what one call may do to a stored object (`Turn`), field by field (`Carried`),
    and when it comes and goes.
  - `listed_nodup`: after any run of calls on an empty store, a listing names no key twice.
  - `life`: of any run of calls on an empty store, every call is such a turn, and whatever is
    stored in the end has been since it was created, with all its writes counted.
-/

import Mathlib.Data.List.Induction
import MachineKeeper.Proofs.Object.Marker
import MachineKeeper.Proofs.Store.Refinement

namespace MachineKeeper

variable {k : Kind}

/-! ## The effect of a call on its place -/

namespace StoreCall

/-- A call is accepted if it is not answered with a fault. -/
def accepted : (c : StoreCall k) → c.Answer → Bool
  | .get _, a => a.isOk
  | .list, a => a.isOk
  | .create _, a => a.isOk
  | .update _, a => a.isOk
  | .updateStatus _, a => a.isOk
  | .delete _, a => a.isOk

/-- Whether a call is accepted, and what is stored at its place afterwards. -/
def effect (fresh : Fresh) : StoreCall k → Option (Object k) → Bool × Option (Object k)
  | .create e, none => (true, some (e.created fresh))
  | .create _, some o => (false, some o)
  | .update e, some o =>
    if o.Current e then (true, if (o.updated e).purgeable then none else some (o.updated e)) else (false, some o)
  | .updateStatus e, some o => if o.Current e then (true, some (o.statusUpdated e)) else (false, some o)
  | .delete _, some o =>
    if o.metadata.finalizers = [] then (true, none)
    else if o.metadata.deletionRequested then (true, some o)
    else (true, some (o.deleted fresh.now))
  | .update _, none | .updateStatus _, none | .delete _, none => (false, none)
  | .get _, o | .list, o => (true, o)

end StoreCall

namespace Memory

theorem perform_effect {s : Memory k} (hs : s.Filed) (fresh : Fresh) (c : StoreCall k) {key : Key}
    (hc : c.key? = some key) :
    (c.accepted (s.perform fresh c).1, (s.perform fresh c).2.get? key) = c.effect fresh (s.get? key) := by
  cases c with
  | get _ => rfl
  | list => cases hc
  | create e =>
    cases hc
    simp only [perform, create_eq]
    cases hg : s.get? e.key with
    | none => simp [StoreCall.effect, StoreCall.accepted, Except.isOk, Except.toBool, Catalog.get?_insert]
    | some o => simp [StoreCall.effect, StoreCall.accepted, Except.isOk, Except.toBool, hg]
  | update e =>
    cases hc
    simp only [perform, update_eq]
    cases hg : s.get? e.key with
    | none => simp [StoreCall.effect, StoreCall.accepted, Except.isOk, Except.toBool, hg]
    | some o =>
      by_cases hv : o.Current e <;> by_cases hp : (o.updated e).purgeable = true <;>
        simp [StoreCall.effect, StoreCall.accepted, Except.isOk, Except.toBool, hv, hp, hg, Catalog.get?_insert,
          Catalog.get?_erase]
  | updateStatus e =>
    cases hc
    simp only [perform, updateStatus_eq]
    cases hg : s.get? e.key with
    | none => simp [StoreCall.effect, StoreCall.accepted, Except.isOk, Except.toBool, hg]
    | some o =>
      by_cases hv : o.Current e <;>
        simp [StoreCall.effect, StoreCall.accepted, Except.isOk, Except.toBool, hv, hg, Catalog.get?_insert]
  | delete _ =>
    cases hc
    simp only [perform, delete_eq]
    cases hg : s.get? key with
    | none => simp [StoreCall.effect, StoreCall.accepted, Except.isOk, Except.toBool, hg]
    | some o =>
      have hk : o.key = key := hs key o hg
      by_cases hf : o.metadata.finalizers = [] <;> by_cases hd : o.metadata.deletionRequested = true <;>
        simp [StoreCall.effect, StoreCall.accepted, Except.isOk, Except.toBool, hf, hd, hg, hk, Catalog.get?_insert,
          Catalog.get?_erase]

end Memory

/-! ## What calls count -/

namespace Rehearsal.Shelf

/-- The shelf after some calls. -/
def after (calls : List Call) (s : Shelf) : Shelf := calls.foldl (fun s c => s.next c) s

/-- What a get finds under a key. -/
def stored (k : Kind) (key : Key) (s : Shelf) : Option (Object k) :=
  match (s.perform ⟨"", someTime⟩ k (.get key)).1 with
  | .ok o => o
  | .error _ => none

def accepts (s : Shelf) (c : Call) : Bool := c.call.accepted (s.answer c)

/-- Whether a call acts on the place of that key. -/
def Call.on (k : Kind) (key : Key) (c : Call) : Bool := c.kind = k && c.call.key? = some key

theorem Call.eq_of_on {key : Key} {c : Call} (h : c.on k key) :
    ∃ (call : StoreCall k) (fresh : Fresh), c = ⟨k, call, fresh⟩ ∧ call.key? = some key := by
  obtain ⟨kind, call, fresh⟩ := c
  simp only [Call.on, Bool.and_eq_true, decide_eq_true_eq] at h
  obtain ⟨rfl, hkey⟩ := h
  exact ⟨call, fresh, rfl, hkey⟩

/-- Whether a call is accepted and stores a new version of the object under the key. -/
def rewrites (k : Kind) (key : Key) (s : Shelf) (c : Call) : Bool :=
  c.on k key && s.accepts c && match c.call with
    | .update _ | .updateStatus _ => true
    | .delete _ => (s.stored c.kind key).all fun o => !o.metadata.deletionRequested
    | _ => false

/-- Whether a call is an accepted update with another spec than that of the object under the key. -/
def respecifies (k : Kind) (key : Key) (s : Shelf) (c : Call) : Bool :=
  c.on k key && s.accepts c && match c.call with
    | .update e => (s.stored c.kind key).any fun o => e.spec ≠ o.spec
    | _ => false

/-- How many of the calls are such, each in the state it is made in. -/
def tally (p : Shelf → Call → Bool) : List Call → Shelf → Nat
  | [], _ => 0
  | c :: calls, s => (p s c).toNat + tally p calls (s.next c)

/-! ## Turns -/

/-- What a call has made of an object that is stored under the key before and after it. -/
structure Carried (k : Kind) (key : Key) (s : Shelf) (c : Call) (o o' : Object k) : Prop where
  raised : s.rewrites k key c → o'.metadata.resourceVersion.toNat = o.metadata.resourceVersion.toNat + 1
  same : ¬s.rewrites k key c → o' = o
  uid : o'.metadata.uid = o.metadata.uid
  createdAt : o'.metadata.createdAt = o.metadata.createdAt
  deletedAt : o.metadata.deletedAt ≠ none → o'.metadata.deletedAt = o.metadata.deletedAt
  marked : o.metadata.deletedAt = none → o'.metadata.deletedAt ≠ none →
    ∃ fresh, c = ⟨k, .delete key, fresh⟩ ∧ o'.metadata.deletedAt = some fresh.now
  generation : o'.metadata.generation.toInt = o.metadata.generation.toInt + (s.respecifies k key c).toNat
  update : ∀ e fresh, c = ⟨k, .update e, fresh⟩ → o'.status = o.status
  updateStatus : ∀ e fresh, c = ⟨k, .updateStatus e, fresh⟩ → o'.spec = o.spec ∧
    o'.metadata = { o.metadata with resourceVersion := o'.metadata.resourceVersion }

/-- Whether a call purges the object: deleting it where nothing holds it, or as the last of its markers goes. -/
def Purges (k : Kind) (key : Key) (s : Shelf) (c : Call) (o : Object k) : Prop :=
  (∃ fresh, c = ⟨k, .delete key, fresh⟩ ∧ o.metadata.finalizers = []) ∨
    ∃ e fresh, c = ⟨k, .update e, fresh⟩ ∧ e.key = key ∧ s.accepts c ∧
      o.metadata.deletedAt ≠ none ∧ o.metadata.finalizers ≠ [] ∧ e.metadata.finalizers = []

/-- What a call may do to what is stored under the key. -/
structure Turn (k : Kind) (key : Key) (s : Shelf) (c : Call) : Prop where
  /-- Only an accepted creation brings an object in, and that is the first version of a new one. -/
  born : ∀ o', s.stored k key = none → (s.next c).stored k key = some o' →
    ∃ e fresh, c = ⟨k, .create e, fresh⟩ ∧ e.key = key ∧ s.accepts c ∧ o' = e.created fresh
  carried : ∀ o o', s.stored k key = some o → (s.next c).stored k key = some o' → Carried k key s c o o'
  gone : ∀ o, s.stored k key = some o → ((s.next c).stored k key = none ↔ Purges k key s c o)

/-- Nothing has run round in that many calls, and nothing is left over that should have been purged. -/
structure Sound (n : Nat) (o : Object k) : Prop where
  version : o.metadata.resourceVersion.toNat ≤ n
  generation : 0 ≤ o.metadata.generation.toInt ∧ o.metadata.generation.toInt ≤ n
  held : ¬o.purgeable

theorem Sound.raised {n : Nat} {o : Object k} (ho : Sound n o) (hn : n + 1 < 2 ^ 63) :
    (o.metadata.resourceVersion + 1).toNat = o.metadata.resourceVersion.toNat + 1 :=
  version_succ ho.version (Nat.lt_trans hn (by decide))

theorem toInt_succ {g : Int64} {n : Nat} (hg : 0 ≤ g.toInt ∧ g.toInt ≤ n) (hn : n + 1 < 2 ^ 63) :
    (g + 1).toInt = g.toInt + 1 := by
  have hone : (1 : Int64).toInt = 1 := rfl
  rw [Int64.toInt_add, hone]
  exact Int.bmod_eq_of_le (by omega) (by omega)

theorem purgeable_iff (o : Object k) : o.purgeable ↔ o.metadata.deletedAt ≠ none ∧ o.metadata.finalizers = [] := by
  simp [Object.purgeable, Metadata.deletionRequested, Option.isSome_iff_ne_none]

variable {s : Shelf} {objects : (k : Kind) → Memory k} {key : Key} {n : Nat}

theorem Holds.stored (h : s.Holds objects) (k : Kind) (key : Key) : s.stored k key = (objects k).get? key := by
  have hanswer := (h.perform ⟨k, .get key, ⟨"", someTime⟩⟩).1
  simp only [answer] at hanswer
  simp only [Shelf.stored, hanswer, Memory.perform]

/-- A call that acts elsewhere leaves what is stored under the key. -/
theorem Holds.stored_of_not_on (h : s.Holds objects) {c : Call} (hc : c.on k key = false) :
    (s.next c).stored k key = s.stored k key := by
  rw [(h.perform c).2.stored, h.stored, step]
  by_cases hk : k = c.kind
  · subst hk
    have hkey : c.call.key? ≠ some key := by simpa [Call.on] using hc
    rw [Function.update_self, Memory.get?_perform_of_ne (h.filed _) _ _ hkey]
  · rw [Function.update_of_ne hk]

/-- At its place a call has its effect. -/
theorem Holds.effect (h : s.Holds objects) (call : StoreCall k) (fresh : Fresh) (hc : call.key? = some key) :
    (s.accepts ⟨k, call, fresh⟩, (s.next ⟨k, call, fresh⟩).stored k key) = call.effect fresh (s.stored k key) := by
  obtain ⟨hanswer, hnext⟩ := h.perform ⟨k, call, fresh⟩
  rw [accepts, hanswer, hnext.stored, h.stored, step, Function.update_self]
  exact Memory.perform_effect (h.filed k) fresh call hc

/-! ## Every call is a turn -/

theorem not_respecifies {c : Call} (h : s.rewrites k key c = false) : s.respecifies k key c = false := by
  obtain ⟨kind, call, fresh⟩ := c
  cases call <;> simp_all [rewrites, respecifies]

theorem Carried.refl {c : Call} {o : Object k} (h : s.rewrites k key c = false) : Carried k key s c o o where
  raised hr := absurd (h.symm.trans hr) Bool.false_ne_true
  same _ := rfl
  uid := rfl
  createdAt := rfl
  deletedAt _ := rfl
  marked h h' := absurd h h'
  generation := by
    rw [not_respecifies h]
    exact (Int.add_zero _).symm
  update _ _ _ := rfl
  updateStatus _ _ _ := ⟨rfl, rfl⟩

theorem turn_same {c : Call} (h : (s.next c).stored k key = s.stored k key) (hr : s.rewrites k key c = false)
    (hp : ∀ o, s.stored k key = some o → ¬Purges k key s c o) : Turn k key s c where
  born o' hb ha := by
    rw [h, hb] at ha
    cases ha
  carried o o' hb ha := by
    rw [h, hb] at ha
    cases ha
    exact .refl hr
  gone o hb := by
    rw [h, hb]
    exact iff_of_false nofun (hp o hb)

theorem turn_refused {c : Call} (hc : s.accepts c = false) (h : (s.next c).stored k key = s.stored k key)
    (hdelete : ∀ o fresh, s.stored k key = some o → c ≠ ⟨k, .delete key, fresh⟩) : Turn k key s c := by
  refine turn_same h (by simp [rewrites, hc]) ?_
  rintro o hb (⟨fresh, he, -⟩ | ⟨_, _, -, -, haccepts, -⟩)
  · exact hdelete o fresh hb he
  · rw [hc] at haccepts
    cases haccepts

theorem turn_kept {c : Call} {o o' : Object k} (hb : s.stored k key = some o) (ha : (s.next c).stored k key = some o')
    (hc : Carried k key s c o o') (hp : ¬Purges k key s c o) : Turn k key s c where
  born _ hb' := by
    rw [hb] at hb'
    cases hb'
  carried _ _ hb' ha' := by
    rw [hb] at hb'
    rw [ha] at ha'
    cases hb'
    cases ha'
    exact hc
  gone _ hb' := by
    rw [hb] at hb'
    cases hb'
    rw [ha]
    exact iff_of_false nofun hp

theorem turn_gone {c : Call} {o : Object k} (hb : s.stored k key = some o) (ha : (s.next c).stored k key = none)
    (hp : Purges k key s c o) : Turn k key s c where
  born _ hb' := by
    rw [hb] at hb'
    cases hb'
  carried _ _ _ ha' := by
    rw [ha] at ha'
    cases ha'
  gone _ hb' := by
    rw [hb] at hb'
    cases hb'
    exact iff_of_true ha hp

theorem turn_of_not_on {c : Call} (hc : c.on k key = false) (h : (s.next c).stored k key = s.stored k key) :
    Turn k key s c := by
  refine turn_same h (by simp [rewrites, hc]) ?_
  rintro o - (⟨fresh, rfl, -⟩ | ⟨e, fresh, rfl, hkey, -⟩)
  · simp [Call.on, StoreCall.key?] at hc
  · simp [Call.on, StoreCall.key?, hkey] at hc

/-! ## A turn of each kind -/

theorem turn_create (h : s.Holds objects) (e : Object k) (fresh : Fresh) : Turn k e.key s ⟨k, .create e, fresh⟩ := by
  have heffect := h.effect (.create e) fresh rfl
  cases hb : s.stored k e.key with
  | none =>
    rw [hb] at heffect
    obtain ⟨haccepts, ha⟩ := Prod.mk.inj heffect
    exact {
      born := fun o' _ ha' => ⟨e, fresh, rfl, rfl, haccepts, Option.some.inj (ha'.symm.trans ha)⟩
      carried := fun o o' hb' => by rw [hb] at hb'; cases hb'
      gone := fun o hb' => by rw [hb] at hb'; cases hb' }
  | some o =>
    rw [hb] at heffect
    obtain ⟨haccepts, ha⟩ := Prod.mk.inj heffect
    exact turn_refused haccepts (ha.trans hb.symm) fun _ _ _ he => by cases he

theorem carried_updated {o e : Object k} {fresh : Fresh} (hb : s.stored k e.key = some o) (ho : Sound n o)
    (hn : n + 1 < 2 ^ 63) (haccepts : s.accepts ⟨k, .update e, fresh⟩) :
    Carried k e.key s ⟨k, .update e, fresh⟩ o (o.updated e) where
  raised _ := ho.raised hn
  same hr := absurd (by simp [rewrites, Call.on, StoreCall.key?, haccepts]) hr
  uid := rfl
  createdAt := rfl
  deletedAt _ := rfl
  marked hd hd' := absurd hd hd'
  generation := by
    by_cases hspec : e.spec = o.spec
    · simp [Object.updated, respecifies, hb, hspec]
    · simp only [Object.updated, if_neg hspec, toInt_succ ho.generation hn, respecifies, Call.on, StoreCall.key?,
        haccepts, hb]
      simp [hspec]
  update _ _ _ := rfl
  updateStatus _ _ he := by cases he

theorem turn_update (h : s.Holds objects) (e : Object k) (fresh : Fresh)
    (hsound : ∀ o, s.stored k e.key = some o → Sound n o) (hn : n + 1 < 2 ^ 63) :
    Turn k e.key s ⟨k, .update e, fresh⟩ := by
  have heffect := h.effect (.update e) fresh rfl
  cases hb : s.stored k e.key with
  | none =>
    rw [hb] at heffect
    obtain ⟨haccepts, ha⟩ := Prod.mk.inj heffect
    exact turn_refused haccepts (ha.trans hb.symm) fun _ _ _ he => by cases he
  | some o =>
    have ho := hsound o hb
    rw [hb, StoreCall.effect] at heffect
    by_cases hv : o.Current e
    · rw [if_pos hv] at heffect
      obtain ⟨haccepts, ha⟩ := Prod.mk.inj heffect
      have hpurge : (o.updated e).purgeable ↔ o.metadata.deletedAt ≠ none ∧ e.metadata.finalizers = [] := by
        rw [purgeable_iff]
        exact and_congr_right fun _ => collapse_eq_nil_iff
      by_cases hp : (o.updated e).purgeable = true
      · rw [if_pos hp] at ha
        obtain ⟨hdeleted, hempty⟩ := hpurge.mp hp
        have hfull : o.metadata.finalizers ≠ [] := fun hf => ho.held ((purgeable_iff o).mpr ⟨hdeleted, hf⟩)
        exact turn_gone hb ha (.inr ⟨e, fresh, rfl, rfl, haccepts, hdeleted, hfull, hempty⟩)
      · rw [if_neg hp] at ha
        refine turn_kept hb ha (carried_updated hb ho hn haccepts) ?_
        rintro (⟨_, he, -⟩ | ⟨_, _, he, -, -, hdeleted, -, hempty⟩)
        · cases he
        · cases he
          exact hp (hpurge.mpr ⟨hdeleted, hempty⟩)
    · rw [if_neg hv] at heffect
      obtain ⟨haccepts, ha⟩ := Prod.mk.inj heffect
      exact turn_refused haccepts (ha.trans hb.symm) fun _ _ _ he => by cases he

theorem turn_updateStatus (h : s.Holds objects) (e : Object k) (fresh : Fresh)
    (hsound : ∀ o, s.stored k e.key = some o → Sound n o) (hn : n + 1 < 2 ^ 63) :
    Turn k e.key s ⟨k, .updateStatus e, fresh⟩ := by
  have heffect := h.effect (.updateStatus e) fresh rfl
  cases hb : s.stored k e.key with
  | none =>
    rw [hb] at heffect
    obtain ⟨haccepts, ha⟩ := Prod.mk.inj heffect
    exact turn_refused haccepts (ha.trans hb.symm) fun _ _ _ he => by cases he
  | some o =>
    rw [hb, StoreCall.effect] at heffect
    by_cases hv : o.Current e
    · rw [if_pos hv] at heffect
      obtain ⟨haccepts, ha⟩ := Prod.mk.inj heffect
      have hcarried : Carried k e.key s ⟨k, .updateStatus e, fresh⟩ o (o.statusUpdated e) := {
        raised := fun _ => (hsound o hb).raised hn
        same := fun hr => absurd (by simp [rewrites, Call.on, StoreCall.key?, haccepts]) hr
        uid := rfl
        createdAt := rfl
        deletedAt := fun _ => rfl
        marked := fun hd hd' => absurd hd hd'
        generation := by simp [Object.statusUpdated, respecifies]
        update := fun _ _ he => by cases he
        updateStatus := fun _ _ _ => ⟨rfl, rfl⟩ }
      refine turn_kept hb ha hcarried ?_
      rintro (⟨_, he, -⟩ | ⟨_, _, he, -⟩) <;> cases he
    · rw [if_neg hv] at heffect
      obtain ⟨haccepts, ha⟩ := Prod.mk.inj heffect
      exact turn_refused haccepts (ha.trans hb.symm) fun _ _ _ he => by cases he

theorem turn_delete (h : s.Holds objects) (key : Key) (fresh : Fresh)
    (hsound : ∀ o, s.stored k key = some o → Sound n o) (hn : n + 1 < 2 ^ 63) :
    Turn k key s ⟨k, .delete key, fresh⟩ := by
  have heffect := h.effect (k := k) (.delete key) fresh rfl
  cases hb : s.stored k key with
  | none =>
    rw [hb] at heffect
    obtain ⟨haccepts, ha⟩ := Prod.mk.inj heffect
    exact turn_refused haccepts (ha.trans hb.symm) fun _ _ hb' => by rw [hb] at hb'; cases hb'
  | some o =>
    rw [hb, StoreCall.effect] at heffect
    by_cases hf : o.metadata.finalizers = []
    · rw [if_pos hf] at heffect
      exact turn_gone hb (Prod.mk.inj heffect).2 (.inl ⟨fresh, rfl, hf⟩)
    · rw [if_neg hf] at heffect
      have hpurge : ¬Purges k key s ⟨k, .delete key, fresh⟩ o := by
        rintro (⟨_, _, hf'⟩ | ⟨_, _, he, -⟩)
        · exact hf hf'
        · cases he
      by_cases hd : o.metadata.deletionRequested = true
      · rw [if_pos hd] at heffect
        exact turn_kept hb (Prod.mk.inj heffect).2 (.refl (by simp [rewrites, hb, hd])) hpurge
      · rw [if_neg hd] at heffect
        obtain ⟨haccepts, ha⟩ := Prod.mk.inj heffect
        have hcarried : Carried k key s ⟨k, .delete key, fresh⟩ o (o.deleted fresh.now) := {
          raised := fun _ => (hsound o hb).raised hn
          same := fun hr => absurd (by simp [rewrites, Call.on, StoreCall.key?, haccepts, hb, hd]) hr
          uid := rfl
          createdAt := rfl
          deletedAt := fun hne => absurd (Option.isSome_iff_ne_none.mpr hne) hd
          marked := fun _ _ => ⟨fresh, rfl, rfl⟩
          generation := by simp [Object.deleted, respecifies]
          update := fun _ _ he => by cases he
          updateStatus := fun _ _ he => by cases he }
        exact turn_kept hb ha hcarried hpurge

/-- In a sound state every call is a turn. -/
theorem turn_of_holds (h : s.Holds objects) (c : Call) (hsound : ∀ o, s.stored k key = some o → Sound n o)
    (hn : n + 1 < 2 ^ 63) : Turn k key s c := by
  cases hon : c.on k key with
  | false => exact turn_of_not_on hon (h.stored_of_not_on hon)
  | true =>
    obtain ⟨call, fresh, rfl, hkey⟩ := Call.eq_of_on hon
    cases call with
    | get _ =>
      refine turn_same ?_ (by simp [rewrites]) ?_
      · exact (Prod.mk.inj (h.effect _ fresh hkey)).2
      · rintro o - (⟨_, he, -⟩ | ⟨_, _, he, -⟩) <;> cases he
    | list => cases hkey
    | create e => cases hkey; exact turn_create h e fresh
    | update e => cases hkey; exact turn_update h e fresh hsound hn
    | updateStatus e => cases hkey; exact turn_updateStatus h e fresh hsound hn
    | delete _ => cases hkey; exact turn_delete h key fresh hsound hn

/-! ## Runs -/

/-- What is stored under the key after the calls has been stored since it was created by one of
them, is held by a marker if it is to go, and counts its writes. -/
structure Life (k : Kind) (key : Key) (s : Shelf) (calls : List Call) (o : Object k) : Prop where
  held : o.metadata.deletedAt ≠ none → o.metadata.finalizers ≠ []
  since : ∃ before e fresh later, calls = before ++ ⟨k, .create e, fresh⟩ :: later ∧ e.key = key ∧
    (s.after before).stored k key = none ∧
    (∀ part, part <+: later → (s.after (before ++ ⟨k, .create e, fresh⟩ :: part)).stored k key ≠ none) ∧
    o.metadata.uid = fresh.uid ∧ o.metadata.createdAt = some fresh.now ∧
    o.metadata.resourceVersion.toNat = 1 + tally (rewrites k key) later (s.after (before ++ [⟨k, .create e, fresh⟩])) ∧
    o.metadata.generation.toInt = 1 + tally (respecifies k key) later (s.after (before ++ [⟨k, .create e, fresh⟩]))

@[simp] theorem after_nil (s : Shelf) : s.after [] = s := rfl

@[simp] theorem after_cons (c : Call) (calls : List Call) (s : Shelf) : s.after (c :: calls) = (s.next c).after calls := rfl

@[simp] theorem after_append (calls later : List Call) (s : Shelf) :
    s.after (calls ++ later) = (s.after calls).after later := List.foldl_append

theorem tally_snoc (p : Shelf → Call → Bool) (calls : List Call) (c : Call) (s : Shelf) :
    tally p (calls ++ [c]) s = tally p calls s + (p (s.after calls) c).toNat := by
  induction calls generalizing s with
  | nil => simp [tally]
  | cons c' calls ih => rw [List.cons_append, tally, tally, ih, after_cons, Nat.add_assoc]

theorem Carried.version {c : Call} {o o' : Object k} (hc : Carried k key s c o o') :
    o'.metadata.resourceVersion.toNat = o.metadata.resourceVersion.toNat + (s.rewrites k key c).toNat := by
  cases hr : s.rewrites k key c with
  | true => exact hc.raised hr
  | false =>
    rw [hc.same fun h => Bool.false_ne_true (hr.symm.trans h)]
    rfl

/-- Nothing that ought to be purged is left stored. -/
theorem effect_held {before : Option (Object k)} (hb : ∀ o, before = some o → ¬o.purgeable) (fresh : Fresh)
    (c : StoreCall k) {o' : Object k} (ha : (c.effect fresh before).2 = some o') : ¬o'.purgeable := by
  cases before with
  | none =>
    cases c <;> cases ha
    exact Bool.false_ne_true
  | some o =>
    have ho := hb o rfl
    cases c with
    | get _ => cases ha; exact ho
    | list => cases ha; exact ho
    | create e => cases ha; exact ho
    | update e =>
      simp only [StoreCall.effect] at ha
      split at ha
      · simp only at ha
        split at ha
        · cases ha
        · rename_i hp
          cases ha
          exact hp
      · cases ha; exact ho
    | updateStatus e =>
      simp only [StoreCall.effect] at ha
      split at ha
      · cases ha; exact ho
      · cases ha; exact ho
    | delete _ =>
      simp only [StoreCall.effect] at ha
      split at ha
      · cases ha
      · rename_i hf
        split at ha
        · cases ha; exact ho
        · cases ha
          exact fun hp => hf ((purgeable_iff _).mp hp).2

theorem sound_next (h : s.Holds objects) (c : Call) (hsound : ∀ o, s.stored k key = some o → Sound n o)
    (hn : n + 1 < 2 ^ 63) {o' : Object k} (ho' : (s.next c).stored k key = some o') : Sound (n + 1) o' := by
  have hturn := turn_of_holds h c hsound hn
  cases hb : s.stored k key with
  | none =>
    obtain ⟨e, fresh, -, -, -, rfl⟩ := hturn.born o' hb ho'
    have hone : (e.created fresh).metadata.generation.toInt = 1 := rfl
    exact ⟨Nat.le_add_left 1 n, by omega, Bool.false_ne_true⟩
  | some o =>
    have ho := hsound o hb
    have hcarried := hturn.carried o o' hb ho'
    refine ⟨?_, ?_, ?_⟩
    · have := hcarried.version
      have := ho.version
      have := Bool.toNat_le (s.rewrites k key c)
      omega
    · have := hcarried.generation
      have := ho.generation
      have := Bool.toNat_le (s.respecifies k key c)
      omega
    · cases hon : c.on k key with
      | false =>
        rw [h.stored_of_not_on hon, hb] at ho'
        cases ho'
        exact ho.held
      | true =>
        obtain ⟨call, fresh, rfl, hkey⟩ := Call.eq_of_on hon
        have ha := (Prod.mk.inj (h.effect call fresh hkey)).2
        exact effect_held (fun o ho => (hsound o ho).held) fresh call (ha.symm.trans ho')

/-- An empty shelf of either sort. -/
theorem holds_empty {s : Shelf} (hs : s ∈ [emptyMemory, emptyTable]) : s.Holds fun _ => Catalog.empty := by
  rcases List.mem_cons.mp hs with rfl | hs
  · exact holds_emptyMemory
  · cases List.mem_singleton.mp hs
    exact holds_emptyTable

theorem Holds.after (h : s.Holds objects) (calls : List Call) :
    (s.after calls).Holds (calls.foldl (fun objects c => step c objects) objects) := by
  induction calls generalizing s objects with
  | nil => exact h
  | cons c calls ih => exact ih (h.perform c).2

/-- What a table holds is in order, and it stays a table. -/
theorem Holds.ordered_after {t : Table} (h : (table t).Holds objects) (calls : List Call) (k : Kind) :
    (calls.foldl (fun objects c => step c objects) objects k).Ordered := by
  induction calls generalizing t objects with
  | nil => exact (h k).ordered
  | cons c calls ih =>
    have hnext := (h.perform c).2
    rw [next, perform_table] at hnext
    exact ih hnext

/-- Whatever has been called for, a listing names no key twice. -/
theorem listed_nodup {s : Shelf} (hs : s ∈ [emptyMemory, emptyTable]) (calls : List Call) (k : Kind) (fresh : Fresh) :
    ∃ keys, (s.after calls).answer ⟨k, .list, fresh⟩ = .ok keys ∧ keys.Nodup := by
  have hordered := holds_emptyTable.ordered_after calls k
  refine ⟨_, (((holds_empty hs).after calls).perform ⟨k, .list, fresh⟩).1, ?_⟩
  exact List.Pairwise.imp (fun hlt => ne_of_irrefl (r := (· < ·)) hlt) hordered

theorem sound_after {s : Shelf} (hs : s.Holds fun _ => Catalog.empty) {calls : List Call}
    (hcalls : calls.length < 2 ^ 63) :
    (∃ objects, (s.after calls).Holds objects) ∧
      ∀ k key (o : Object k), (s.after calls).stored k key = some o → Sound calls.length o := by
  induction calls using List.reverseRecOn with
  | nil => exact ⟨⟨_, hs⟩, fun k key o ho => by rw [after_nil, hs.stored] at ho; cases ho⟩
  | append_singleton calls c ih =>
    rw [List.length_append, List.length_singleton] at hcalls ⊢
    obtain ⟨⟨objects, h⟩, hsound⟩ := ih (Nat.lt_of_succ_lt hcalls)
    rw [after_append]
    exact ⟨⟨_, (h.perform c).2⟩, fun k key o ho => sound_next h c (hsound k key) hcalls ho⟩

theorem turn_after {s : Shelf} (hs : s.Holds fun _ => Catalog.empty) {calls : List Call} (c : Call)
    (hcalls : calls.length + 1 < 2 ^ 63) (k : Kind) (key : Key) : Turn k key (s.after calls) c := by
  obtain ⟨⟨objects, h⟩, hsound⟩ := sound_after hs (Nat.lt_of_succ_lt hcalls)
  exact turn_of_holds h c (hsound k key) hcalls

/-- A life goes on for as long as the object is stored. -/
theorem Life.snoc {calls : List Call} {c : Call} {o o' : Object k} (hl : Life k key s calls o)
    (hc : Carried k key (s.after calls) c o o') (ho' : (s.after (calls ++ [c])).stored k key = some o')
    (hheld : ¬o'.purgeable) : Life k key s (calls ++ [c]) o' := by
  obtain ⟨-, before, e, fresh, later, rfl, hkey, hnone, hstored, huid, hcreated, hversion, hgeneration⟩ := hl
  refine ⟨fun hd hf => hheld ((purgeable_iff o').mpr ⟨hd, hf⟩), before, e, fresh, later ++ [c], ?_, hkey, hnone, ?_,
    hc.uid.trans huid, hc.createdAt.trans hcreated, ?_, ?_⟩
  · simp
  · intro part hpart
    rcases List.prefix_concat_iff.mp hpart with rfl | hpart
    · have happend : before ++ ⟨k, .create e, fresh⟩ :: (later ++ [c]) = before ++ ⟨k, .create e, fresh⟩ :: later ++ [c] := by
        simp
      rw [happend, ho']
      exact Option.some_ne_none _
    · exact hstored part hpart
  · rw [hc.version, hversion, tally_snoc, ← after_append, List.append_assoc, List.singleton_append, Nat.add_assoc]
  · rw [hc.generation, hgeneration, tally_snoc, ← after_append, List.append_assoc, List.singleton_append]
    omega

/-- Whatever calls an empty store gets, every one of them is a turn, and what is stored in the end
has lived since its creation. -/
theorem life {s : Shelf} (hs : s ∈ [emptyMemory, emptyTable]) {calls : List Call} (hcalls : calls.length < 2 ^ 63)
    (k : Kind) (key : Key) :
    (∀ before c later, calls = before ++ c :: later → Turn k key (s.after before) c) ∧
      ∀ o, (s.after calls).stored k key = some o → Life k key s calls o := by
  have hempty := holds_empty hs
  constructor
  · rintro before c later rfl
    refine turn_after hempty c ?_ k key
    rw [List.length_append, List.length_cons] at hcalls
    omega
  · clear hs
    induction calls using List.reverseRecOn with
    | nil =>
      intro o ho
      rw [after_nil, hempty.stored] at ho
      cases ho
    | append_singleton calls c ih =>
      intro o' ho'
      have hheld := ((sound_after hempty hcalls).2 k key o' ho').held
      rw [List.length_append, List.length_singleton] at hcalls
      have hturn := turn_after hempty c hcalls k key
      rw [after_append] at ho'
      cases hb : (s.after calls).stored k key with
      | none =>
        obtain ⟨e, fresh, rfl, hkey, -, rfl⟩ := hturn.born o' hb ho'
        refine ⟨nofun, calls, e, fresh, [], rfl, hkey, hb, fun part hpart => ?_, rfl, rfl, rfl, rfl⟩
        rw [List.prefix_nil.mp hpart, after_append, ho']
        exact Option.some_ne_none _
      | some o => exact (ih (Nat.lt_of_succ_lt hcalls) o hb).snoc (hturn.carried o o' hb ho') (by rwa [after_append]) hheld

/-- A machine that is created with a marker, given an image, and then deleted. -/
def leaving : List Call :=
  let m := newMachine ⟨"default", "w1"⟩ ["backup"]
  [⟨.machine, .create m, ⟨"u1", someTime⟩⟩,
    ⟨.machine, .update { m with metadata.resourceVersion := 1, spec.image := "debian" }, ⟨"u2", someTime⟩⟩,
    ⟨.machine, .delete m.key, ⟨"u3", someTime⟩⟩]

theorem life_leaving :
    ∃ o, (emptyMemory.after leaving).stored .machine ⟨"default", "w1"⟩ = some o ∧
      (o.metadata.resourceVersion, o.metadata.generation, o.metadata.deletedAt) = (3, 2, some someTime) ∧
      Life .machine ⟨"default", "w1"⟩ emptyMemory leaving o := by
  have hlife := (life (s := emptyMemory) List.mem_cons_self (show leaving.length < 2 ^ 63 by decide) .machine
    ⟨"default", "w1"⟩).2
  obtain ⟨o, ho⟩ := Option.isSome_iff_exists.mp
    (show ((emptyMemory.after leaving).stored .machine ⟨"default", "w1"⟩).isSome by decide)
  refine ⟨o, ho, ?_, hlife o ho⟩
  have hcounts : ((emptyMemory.after leaving).stored .machine ⟨"default", "w1"⟩).map
      (fun o => (o.metadata.resourceVersion, o.metadata.generation, o.metadata.deletedAt)) =
        some (3, 2, some someTime) := by decide
  rw [ho] at hcounts
  exact Option.some.inj hcounts

end Rehearsal.Shelf

end MachineKeeper
