/-
  MachineKeeper.Proofs.Fleet.Trespass — whose instance a reconcile deletes.

  Clients create machines with an empty status under keys of a given set, update and delete them
  as they like, markers included, and write no status (`Plainly`). A trespass is a reconcile about
  to delete the instance of another machine that nobody has asked to delete.

  A machine so created stands for the instance of its own name as long as it lives, whatever
  happens to it (`naming`): what a reconcile records is the name that the machine stands for
  already. The name of an instance is the name of the machine without its namespace, so two
  machines stand for one instance exactly where two keys share a name.

  Proved:
  - `no_trespass_iff`: no reachable state is a trespass if and only if no two keys of the set share
    a name. One direction is the accord; for the other, two such keys are brought to a trespass.
  - `shared_name_destroys`: two namespaces, one name, both machines converged and recorded; the
    deletion of one removes the recorded instance of the other.
-/

import Mathlib.Data.Set.Basic
import MachineKeeper.Proofs.Fleet.Watch

namespace MachineKeeper

/-- Creates with an empty status under keys of the set, and no status writes. -/
def Plainly (keys : Set Key) : Clients := fun _ c => match c with
  | .create o => o.key ∈ keys ∧ o.status = ⟨[], ""⟩
  | .updateStatus _ => False
  | _ => True

/-- A reconcile is about to delete the instance of another machine that is to live. -/
def Fleet.Trespass (f : Fleet) : Prop :=
  ∃ key name, f.Issues key (.backend (.delete name)) ∧
    ∃ other ≠ key, ∃ m, f.site.store.get? other = some m ∧ m.instanceName = name ∧ ¬m.metadata.deletionRequested

/-! ## The accord -/

/-- All machines have keys of the set and stand for the instances of their own names. -/
def Memory.Named (keys : Set Key) (s : Memory .machine) : Prop :=
  ∀ key m, s.get? key = some m → key ∈ keys ∧ m.instanceName = key.name

theorem Memory.named_perform {keys : Set Key} {s : Memory .machine} (hf : s.Filed) (hs : s.Named keys) (fresh : Fresh)
    (c : StoreCall .machine) (hcreate : ∀ o, c = .create o → o.key ∈ keys ∧ o.instanceName = o.key.name)
    (hstatus : ∀ o, c = .updateStatus o → o.instanceName = o.key.name) : (s.perform fresh c).2.Named keys := by
  intro key m hm
  by_cases hc : c.key? = some key
  · rcases perform_change hf fresh c hc with he | hchange
    · exact hs key m (he ▸ hm)
    · rw [hm] at hchange
      generalize hbefore : s.get? key = before at hchange
      cases hchange with
      | created o =>
        cases hc
        exact hcreate o rfl
      | updated current o hv hp =>
        cases hc
        rw [Object.instanceName_updated (hf _ current hbefore).symm]
        exact hs _ current hbefore
      | restated current o hv =>
        cases hc
        have hk := hf _ current hbefore
        rw [Object.instanceName_statusUpdated hk.symm]
        exact ⟨(hs _ current hbefore).1, hstatus o rfl⟩
      | marked _ current _ _ => exact hs key current hbefore
  · rw [get?_perform_of_ne hf fresh c hc] at hm
    exact hs key m hm

def naming (keys : Set Key) : Accord where
  inv s := s.store.Named keys
  spares _ _ _ := True
  may key c _ := ∀ name, c = .backend (.delete name) → key ∈ keys ∧ name = key.name
  spares_refl _ _ := trivial
  spares_trans _ _ := trivial

namespace Naming

variable {keys : Set Key}

theorem owes_call {key : Key} {s : Site} (hs : s.store.Named keys) (fresh : Fresh) {c : StoreCall .machine}
    (hcreate : ∀ o, c ≠ .create o) (hstatus : ∀ o, c = .updateStatus o → o.instanceName = o.key.name) :
    ((naming keys).terms key).owes s (s.call fresh c) :=
  ⟨Memory.named_perform s.filed hs fresh c (fun o h => absurd h (hcreate o)) hstatus, fun _ _ => trivial⟩

def watch (key : Key) : (naming keys).Watch key where
  knows m _ := m.key = key ∧ key ∈ keys ∧ m.instanceName = key.name
  gone _ _ := True
  knows_outlasts h _ := h
  gone_outlasts _ _ := trivial
  read {m s} hs hm _ := ⟨s.filed key m hm, hs key m hm⟩
  seen _ _ := trivial
  may_store _ _ h := by cases h
  may_clock _ h := by cases h
  may_backend := by
    rintro m s _ - ⟨-, hkey, hname⟩ hc name ⟨⟩
    exact ⟨hkey, (hc name rfl).trans hname⟩
  mark fresh hs _ := owes_call hs fresh (fun _ h => by cases h) (fun _ h => by cases h)
  restate fresh o hs h hk hn := by
    refine owes_call hs fresh (fun _ h => by cases h) ?_
    rintro _ ⟨⟩
    rw [hn, hk, h.1]
    exact h.2.2
  make hs h := ⟨⟨hs, fun _ _ => trivial⟩, h⟩
  unmake hs h := ⟨⟨hs, fun _ _ => trivial⟩, h⟩
  release fresh hs _ _ := owes_call hs fresh (fun _ h => by cases h) (fun _ h => by cases h)

theorem kept : (naming keys).Kept (Plainly keys) where
  start _ := fun _ _ h => by cases h
  client {s c} fresh hs hc := by
    refine ⟨Memory.named_perform s.filed hs fresh c ?_ ?_, fun _ => trivial⟩
    · rintro o rfl
      exact ⟨hc.1, by simp [Object.instanceName, hc.2, Object.key, Metadata.key]⟩
    · rintro o rfl
      exact hc.elim
  appear _ hs := ⟨hs, fun _ => trivial⟩
  vanish _ hs := ⟨hs, fun _ => trivial⟩
  reconcile key _ := (watch key).keeps_machine

end Naming

/-- Of two machines that stand for one instance, the keys share a name. -/
theorem name_eq_of_trespass {keys : Set Key} {f : Fleet} (h : Fleet.Reach (Plainly keys) f) (ht : f.Trespass) :
    ∃ a ∈ keys, ∃ b ∈ keys, a.name = b.name ∧ a ≠ b := by
  obtain ⟨key, name, hissues, other, hne, m, hm, hname, -⟩ := ht
  have hf := Accord.holds Naming.kept h
  obtain ⟨hkey, rfl⟩ := Accord.may_of_issues hf hissues name rfl
  obtain ⟨hother, hm'⟩ := hf.1 other m hm
  exact ⟨key, hkey, other, hother, hname.symm.trans hm', Ne.symm hne⟩

/-! ## A trespass -/

namespace Fleet

open Reconcile

/-- The reconcile of the key stands at `p`, and the site is `s`. -/
def At (f : Fleet) (key : Key) (s : Site) (p : MachinePlan) : Prop := f.site = s ∧ f.flights key = some p

variable {f : Fleet} {key : Key} {s : Site}

theorem at_start (hidle : f.flights key = none) (hs : f.site = s) : (f.step (.start key)).At key s (machine key) := by
  simp [At, step, hidle, hs]

theorem at_proceed {c : ReconcileCall .machine} {next : c.Answer → MachinePlan} (h : f.At key s (.call c next))
    (chance : Chance) :
    (f.step (.proceed key chance)).At key (s.answer key chance c).2 (next (s.answer key chance c).1) := by
  obtain ⟨rfl, hf⟩ := h
  simp [At, step, hf]

/-- The first calls of a reconcile, nothing failing. -/
def luckyCalls (key : Key) (n : Nat) : List Move := .start key :: List.replicate n (.proceed key lucky)

/-- A machine that is to go comes to its delete after three calls, if its instance is there. -/
theorem at_delete {m : Machine} (hidle : f.flights key = none) (hm : f.site.store.get? key = some m)
    (hmark : m.hasMarker machineMarker) (hd : m.metadata.deletionRequested)
    (hthere : (f.site.instances m.instanceName).isSome) :
    (f.run (luckyCalls key 3)).At key f.site (delete m m.instanceName) := by
  have hdecide : Decision.of m = .observe (.deleting m.instanceName) :=
    Decision.of_eq_observe_iff.mpr ⟨hmark, by rw [if_pos hd]⟩
  have hconnect : (f.site.answer key lucky (.backend .connect)).2 = f.site := rfl
  have hexist : (f.site.answer key lucky (.backend (.exist m.instanceName))).1 = .ok true := by
    simp only [Site.answer, lucky, Except.map, hthere]
  have hread := at_start hidle rfl
  rw [machine_eq] at hread
  have hobserve : ((f.step (.start key)).step (.proceed key lucky)).At key f.site
      (observe m (.deleting m.instanceName)) := by
    have hanswer := at_proceed hread lucky
    simp only [Site.answer, Memory.perform, hm, hdecide] at hanswer
    exact hanswer
  rw [observe_eq] at hobserve
  have hlook := at_proceed (at_proceed hobserve lucky) lucky
  simp only [Pending.instanceName, hconnect, hexist] at hlook
  exact hlook

/-- Two machines, the first of them with the marker, and then a deletion of that one. -/
def oneOfTwo (a b : Key) : List Move :=
  [.client (.create (newMachine a [machineMarker])) lucky.fresh, .client (.create (newMachine b [])) lucky.fresh,
    .client (.delete a) lucky.fresh]

theorem get?_oneOfTwo {a b : Key} (hne : a ≠ b) (there : String → Bool) :
    let s := ((start there).run (oneOfTwo a b)).site.store
    (∃ m, s.get? a = some m ∧ m.hasMarker machineMarker ∧ m.metadata.deletionRequested ∧ m.instanceName = a.name) ∧
      ∃ m, s.get? b = some m ∧ ¬m.metadata.deletionRequested ∧ m.instanceName = b.name := by
  let s₁ := (Memory.create lucky.fresh (newMachine a [machineMarker]) Catalog.empty).2
  let s₂ := (Memory.create lucky.fresh (newMachine b []) s₁).2
  have h₁ : ∀ key, s₁.get? key = if a = key then some ((newMachine a [machineMarker]).created lucky.fresh) else none :=
    Memory.get?_create lucky.fresh rfl
  have hb : s₁.get? b = none := by rw [h₁, if_neg hne]
  have h₂ : ∀ key, s₂.get? key = if b = key then some ((newMachine b []).created lucky.fresh) else s₁.get? key :=
    Memory.get?_create lucky.fresh hb
  have ha : s₂.get? a = some ((newMachine a [machineMarker]).created lucky.fresh) := by
    rw [h₂, if_neg hne.symm, h₁, if_pos rfl]
  have h₃ := Memory.get?_delete lucky.fresh.now ha rfl (List.cons_ne_nil _ _) Bool.false_ne_true
  refine ⟨⟨_, (h₃ a).trans (if_pos rfl), rfl, rfl, rfl⟩, (newMachine b []).created lucky.fresh, ?_,
    Bool.false_ne_true, rfl⟩
  calc
    _ = _ := h₃ b
    _ = s₂.get? b := if_neg hne
    _ = _ := (h₂ b).trans (if_pos rfl)

end Fleet

/-- Two keys that share a name can be brought to a trespass. -/
theorem trespass_of_name_eq {keys : Set Key} {a b : Key} (ha : a ∈ keys) (hb : b ∈ keys) (hname : a.name = b.name)
    (hne : a ≠ b) : ∃ f, Fleet.Reach (Plainly keys) f ∧ f.Trespass := by
  obtain ⟨⟨m, hm, hmark, hd, hmname⟩, other, hother, hlive, hothername⟩ := Fleet.get?_oneOfTwo hne fun _ => true
  have hreach : Fleet.Reach (Plainly keys) ((Fleet.start fun _ => true).run (Fleet.oneOfTwo a b)) :=
    .run (.start _) ⟨⟨ha, rfl⟩, ⟨hb, rfl⟩, trivial, trivial⟩
  have hat := Fleet.at_delete rfl hm hmark hd rfl
  rw [Reconcile.delete_eq] at hat
  have hcalls : Fleet.Reach (Plainly keys)
      (((Fleet.start fun _ => true).run (Fleet.oneOfTwo a b)).run (Fleet.luckyCalls a 3)) :=
    .run hreach ⟨trivial, trivial, trivial, trivial, trivial⟩
  refine ⟨_, hcalls, a, _, ⟨_, hat.2⟩, b, hne.symm, other, ?_, ?_, hlive⟩
  · rw [hat.1]
    exact hother
  · rw [hmname, hothername, hname]

/-! ## Whose instance is deleted -/

/-- A reconcile deletes no instance of another machine that is to live, if and only if the keys
of machines differ in their names already. -/
theorem no_trespass_iff (keys : Set Key) :
    (∀ f, Fleet.Reach (Plainly keys) f → ¬f.Trespass) ↔ ∀ a ∈ keys, ∀ b ∈ keys, a.name = b.name → a = b := by
  constructor
  · intro h a ha b hb hname
    by_contra hne
    obtain ⟨f, hreach, ht⟩ := trespass_of_name_eq ha hb hname hne
    exact h f hreach ht
  · intro h f hreach ht
    obtain ⟨a, ha, b, hb, hname, hne⟩ := name_eq_of_trespass hreach ht
    exact hne (h a ha b hb hname)

/-- Machines of one name in two namespaces, both recorded as running; then one is to go, and its
reconcile stands before the delete. -/
def sharedName : Fleet :=
  let a : Key := ⟨"a", "w1"⟩
  let b : Key := ⟨"b", "w1"⟩
  (Fleet.start fun _ => false).run
    ([.client (.create (newMachine a [])) ⟨"u1", someTime⟩,
        .client (.create (newMachine b [])) ⟨"u2", someTime⟩] ++
      Fleet.luckyCalls a 2 ++ [.stop a] ++ Fleet.luckyCalls b 2 ++ [.stop b] ++
      Fleet.luckyCalls a 7 ++ [.stop a] ++ Fleet.luckyCalls b 5 ++ [.stop b] ++
      [.client (.delete a) ⟨"", someTime⟩] ++ Fleet.luckyCalls a 3)

theorem shared_name_destroys :
    Fleet.Reach (Plainly {⟨"a", "w1"⟩, ⟨"b", "w1"⟩}) sharedName ∧
      sharedName.Issues ⟨"a", "w1"⟩ (.backend (.delete "w1")) ∧
      (∃ m, sharedName.site.store.get? ⟨"b", "w1"⟩ = some m ∧ m.status.instanceId = "w1" ∧
        ¬m.metadata.deletionRequested) ∧
      (sharedName.step (.proceed ⟨"a", "w1"⟩ Fleet.lucky)).site.instances "w1" = none := by
  refine ⟨.run (.start _) ⟨⟨.inl rfl, rfl⟩, ⟨.inr rfl, rfl⟩, ?_⟩, ⟨_, rfl⟩, ⟨_, rfl, by decide, by decide⟩, by decide⟩
  simp [Fleet.AllAllowed, Fleet.Allowed, Plainly, Fleet.luckyCalls, List.replicate]

end MachineKeeper
