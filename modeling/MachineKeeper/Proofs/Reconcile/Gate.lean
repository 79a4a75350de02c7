/-
  MachineKeeper.Proofs.Reconcile.Gate — what a reconcile says to the backend, and when.

  A reconcile is followed through every answer there could be, the store's included, and up to
  any of its calls (`Plan.Leaves`): so nothing is assumed of whoever answers, nor of what others
  write meanwhile, and the reconcile may have been broken off where the trace ends.

  `Talk` lists all that a reconcile of a machine and the backend can have said to each other:
  connect, look, and then nothing, or one create or delete and another look. What is written is
  tied to it by `Wary`, which follows the reconcile call by call: a status that says the instance
  is there, only right after the instance was seen; the marker off, only right after it was seen
  to be gone.

  Proved:
  - `wary_machine`: a reconcile keeps to both from the read on, whatever is answered.
  - `backend_gated`: so every backend call and every write of a reconcile is preceded by what
    allows it (`Gated`).
-/

import MachineKeeper.Proofs.Object.Condition
import MachineKeeper.Proofs.Object.Marker
import MachineKeeper.Proofs.Reconcile.Calls
import MachineKeeper.Proofs.Store.Change

namespace MachineKeeper

/-! ## Plans followed through their answers -/

section

variable {C : Type} {A : C → Type} {α : Type}

/-- Calls in order, each with its answer. -/
abbrev Trace (A : C → Type) := List ((c : C) × A c)

/-- What is left of a plan once its first calls have been answered like that. -/
inductive Plan.Leaves : Plan A α → Trace A → Plan A α → Prop
  | here (p : Plan A α) : p.Leaves [] p
  | call {c : C} {next : A c → Plan A α} {x : A c} {tr : Trace A} {q : Plan A α} :
      (next x).Leaves tr q → (Plan.call c next).Leaves (⟨c, x⟩ :: tr) q

namespace Plan

/-- A call of the trace was the next one, once those before it had been answered. -/
theorem Leaves.split {p q : Plan A α} {before after : Trace A} {c : C} {x : A c}
    (h : p.Leaves (before ++ ⟨c, x⟩ :: after) q) :
    ∃ next, p.Leaves before (.call c next) ∧ (next x).Leaves after q := by
  induction before generalizing p with
  | nil =>
    cases h with
    | call h => exact ⟨_, .here _, h⟩
  | cons e before ih =>
    cases h with
    | call h =>
      obtain ⟨next, hbefore, hafter⟩ := ih h
      exact ⟨next, .call hbefore, hafter⟩

end Plan

end

/-! ## The backend's share of a trace -/

abbrev BackendTrace := Trace BackendCall.Answer

def BackendCall.Failed : (c : BackendCall) → c.Answer → Prop
  | .connect, x | .create _, x | .delete _, x | .close, x => x ≠ .ok ()
  | .exist _, x => ∀ there, x ≠ .ok there

namespace Reconcile

def talk (tr : Trace (ReconcileCall.Answer (k := .machine))) : BackendTrace := tr.filterMap fun
  | ⟨.backend c, x⟩ => some ⟨c, x⟩
  | _ => none

/-- The last that was heard from the backend is whether the instance of the machine exists. -/
def Seen (m : Machine) (there : Bool) (l : BackendTrace) : Prop :=
  l.getLast? = some ⟨.exist m.instanceName, .ok there⟩

/-- All that a reconcile of the machine and the backend can have said to each other. -/
inductive Talk (m : Machine) : BackendTrace → Prop
  | silent : Talk m []
  | connect (x : Except BackendFault Unit) : Talk m [⟨.connect, x⟩]
  | look (x : Except BackendFault Bool) : Talk m [⟨.connect, .ok ()⟩, ⟨.exist m.instanceName, x⟩]
  | create (x : Except BackendFault Unit) : ¬m.metadata.deletionRequested →
      Talk m [⟨.connect, .ok ()⟩, ⟨.exist m.instanceName, .ok false⟩,
        ⟨.create (.ofSpec m.instanceName m.spec), x⟩]
  | confirmCreate (x : Except BackendFault Bool) : ¬m.metadata.deletionRequested →
      Talk m [⟨.connect, .ok ()⟩, ⟨.exist m.instanceName, .ok false⟩,
        ⟨.create (.ofSpec m.instanceName m.spec), .ok ()⟩, ⟨.exist m.instanceName, x⟩]
  | delete (x : Except BackendFault Unit) : m.metadata.deletionRequested →
      Talk m [⟨.connect, .ok ()⟩, ⟨.exist m.instanceName, .ok true⟩, ⟨.delete m.instanceName, x⟩]
  | confirmDelete (x : Except BackendFault Bool) : m.metadata.deletionRequested →
      Talk m [⟨.connect, .ok ()⟩, ⟨.exist m.instanceName, .ok true⟩, ⟨.delete m.instanceName, .ok ()⟩,
        ⟨.exist m.instanceName, x⟩]

/-- The condition that sums up the instance says that it is there. -/
def Ready (m : Machine) : Prop := ∃ c, Condition.find? readyType m.status.conditions = some c ∧ c.status = .yes

/-- What a reconcile that has read the machine may write after such a talk. -/
def MayWrite (m : Machine) (l : BackendTrace) : StoreCall .machine → Prop
  | .update o => ¬o.hasMarker machineMarker → Seen m false l
  | .updateStatus o => Ready o → o.status.instanceId = m.instanceName ∧ Seen m true l
  | _ => False

/-- From here on the talk goes on as it may, and every write is one that may be made. -/
def Wary (m : Machine) : MachinePlan → BackendTrace → Prop
  | .done _, l => Talk m l
  | .call (.backend c) next, l => Talk m l ∧ ∀ x, Wary m (next x) (l ++ [⟨c, x⟩])
  | .call (.store c) next, l => Talk m l ∧ MayWrite m l c ∧ ∀ x, Wary m (next x) l
  | .call .wallClock next, l => Talk m l ∧ ∀ x, Wary m (next x) l

namespace Wary

variable {m : Machine} {l : BackendTrace}

theorem talks {p : MachinePlan} (h : Wary m p l) : Talk m l := by
  match p, h with
  | .done _, h => exact h
  | .call (.backend _) _, h => exact h.1
  | .call (.store _) _, h => exact h.1
  | .call .wallClock _, h => exact h.1

theorem leaves {p q : MachinePlan} {tr : Trace (ReconcileCall.Answer (k := .machine))} (ht : p.Leaves tr q)
    (h : Wary m p l) : Wary m q (l ++ talk tr) := by
  induction ht generalizing l with
  | here p => rwa [talk, List.filterMap_nil, List.append_nil]
  | @call c next x tr q _ ih =>
    cases c with
    | backend c =>
      have hnext := ih (h.2 x)
      rwa [List.append_assoc] at hnext
    | store c => exact ih (h.2.2 x)
    | wallClock => exact ih (h.2 x)

/-! ## The parts of a reconcile -/

theorem fail (h : Talk m l) (fault : ReconcileFault) : Wary m (Reconcile.fail m fault) l := by
  rw [fail_eq]
  refine ⟨h, fun now => ?_⟩
  dsimp only
  split
  · refine ⟨h, ?_, fun _ => h⟩
    rintro ⟨c, hc, hyes⟩
    obtain ⟨c', hc', hno, -⟩ := Condition.find?_set (failedCondition m fault now) m.status.conditions
    cases hc.symm.trans hc'
    cases hno.symm.trans hyes
  · exact h

theorem adopt (h : Talk m l) (hseen : Seen m true l) : Wary m (Reconcile.adopt m m.instanceName) l := by
  rw [adopt_eq]
  refine ⟨h, fun now => ?_⟩
  dsimp only
  split
  · exact h
  · refine ⟨h, fun _ => ⟨rfl, hseen⟩, fun x => ?_⟩
    cases x <;> exact h

theorem addMarker (h : Talk m l) : Wary m (Reconcile.addMarker m) l := by
  rw [addMarker_eq]
  refine ⟨h, fun hnot => absurd (Object.hasMarker_addMarker m machineMarker) hnot, fun x => ?_⟩
  cases x <;> exact h

theorem removeMarker (h : Talk m l) (hseen : Seen m false l) : Wary m (Reconcile.removeMarker m) l := by
  rw [removeMarker_eq]
  split
  · refine ⟨h, fun _ => hseen, fun x => ?_⟩
    cases x <;> exact h
  · exact h

theorem create (hd : ¬m.metadata.deletionRequested) :
    Wary m (Reconcile.create m (.ofSpec m.instanceName m.spec))
      [⟨.connect, .ok ()⟩, ⟨.exist m.instanceName, .ok false⟩] := by
  rw [create_eq]
  refine ⟨.look _, fun x => ?_⟩
  cases x with
  | error fault => exact fail (.create _ hd) _
  | ok _ =>
    refine ⟨.create _ hd, fun x => ?_⟩
    match x with
    | .error fault => exact fail (.confirmCreate _ hd) _
    | .ok false => exact fail (.confirmCreate _ hd) _
    | .ok true => exact adopt (.confirmCreate _ hd) rfl

theorem delete (hd : m.metadata.deletionRequested) :
    Wary m (Reconcile.delete m m.instanceName)
      [⟨.connect, .ok ()⟩, ⟨.exist m.instanceName, .ok true⟩] := by
  rw [delete_eq]
  refine ⟨.look _, fun x => ?_⟩
  cases x with
  | error fault => exact fail (.delete _ hd) _
  | ok _ =>
    refine ⟨.delete _ hd, fun x => ?_⟩
    match x with
    | .error fault => exact fail (.confirmDelete _ hd) _
    | .ok true => exact fail (.confirmDelete _ hd) _
    | .ok false => exact removeMarker (.confirmDelete _ hd) rfl

theorem observe {pending : Pending}
    (hp : pending = if m.metadata.deletionRequested then .deleting m.instanceName else .live m.instanceName) :
    Wary m (Reconcile.observe m pending) [] := by
  have hname : pending.instanceName = m.instanceName := by
    rw [hp]
    split <;> rfl
  rw [observe_eq, hname]
  refine ⟨.silent, fun x => ?_⟩
  cases x with
  | error fault => exact fail (.connect _) _
  | ok _ =>
    refine ⟨.connect _, fun x => ?_⟩
    by_cases hd : m.metadata.deletionRequested = true
    · rw [if_pos hd] at hp
      subst hp
      match x with
      | .error fault => exact fail (.look _) _
      | .ok true => exact delete hd
      | .ok false => exact removeMarker (.look _) rfl
    · rw [if_neg hd] at hp
      subst hp
      match x with
      | .error fault => exact fail (.look _) _
      | .ok true => exact adopt (.look _) rfl
      | .ok false => exact create hd

end Wary

/-- What a reconcile does once it has read the machine. -/
def afterRead (m : Machine) : MachinePlan := match Decision.of m with
  | .done => .done (.ok .never)
  | .addMarker => addMarker m
  | .observe pending => observe m pending

theorem wary_machine (m : Machine) : Wary m (afterRead m) [] := by
  unfold afterRead
  cases hdecision : Decision.of m with
  | done => exact Talk.silent
  | addMarker => exact Wary.addMarker .silent
  | observe pending => exact Wary.observe (Decision.of_eq_observe_iff.mp hdecision).2

/-! ## What the talk allows -/

/-- What allows the next backend call: nothing has failed, and for a change that the machine is
to have it and that the last look said so. -/
def MayCall (m : Machine) (l : BackendTrace) (c : BackendCall) : Prop :=
  (∀ e ∈ l, ¬e.1.Failed e.2) ∧ match c with
    | .create _ => ¬m.metadata.deletionRequested ∧ Seen m false l
    | .delete _ => m.metadata.deletionRequested ∧ Seen m true l
    | _ => True

section

variable {m : Machine} {l : BackendTrace}

theorem Talk.calls (h : Talk m l) :
    l.map (·.1) <+: [.connect, .exist m.instanceName, .create (.ofSpec m.instanceName m.spec), .exist m.instanceName] ∨
      l.map (·.1) <+: [.connect, .exist m.instanceName, .delete m.instanceName, .exist m.instanceName] := by
  cases h <;> simp

theorem Talk.names (h : Talk m l) :
    ∀ c ∈ l.map (·.1), c = .connect ∨ c = .exist m.instanceName ∨
      c = .create (.ofSpec m.instanceName m.spec) ∨ c = .delete m.instanceName := by
  cases h <;> simp

theorem Talk.once (h : Talk m l) : (l.map (·.1)).countP (·.mutates) ≤ 1 := by
  cases h <;> simp [BackendCall.mutates]

theorem Talk.mayCall {c : BackendCall} {x : c.Answer} (h : Talk m (l ++ [⟨c, x⟩])) : MayCall m l c := by
  generalize hl' : l ++ [⟨c, x⟩] = l' at h
  have hl : l = l'.dropLast := by rw [← hl', List.dropLast_concat]
  have hc : l'.getLast? = some ⟨c, x⟩ := by rw [← hl', List.getLast?_concat]
  subst hl
  cases h with
  | silent => cases hc
  | connect => cases hc; simp [MayCall]
  | look => cases hc; simp [MayCall, BackendCall.Failed]
  | create _ hd => cases hc; simp [MayCall, BackendCall.Failed, Seen, hd]
  | confirmCreate => cases hc; simp [MayCall, BackendCall.Failed]
  | delete _ hd => cases hc; simp [MayCall, BackendCall.Failed, Seen, hd]
  | confirmDelete => cases hc; simp [MayCall, BackendCall.Failed]

theorem talk_afterRead_of_unmarked (hmark : ¬m.hasMarker machineMarker) {tr : Trace (ReconcileCall.Answer (k := .machine))}
    {q : MachinePlan} (h : (afterRead m).Leaves tr q) : talk tr = [] := by
  unfold afterRead at h
  cases hdecision : Decision.of m with
  | done =>
    rw [hdecision] at h
    cases h
    rfl
  | addMarker =>
    simp only [hdecision, addMarker_eq] at h
    cases h with
    | here => rfl
    | @call _ _ x _ _ h =>
      cases x <;> cases h <;> rfl
  | observe pending => exact absurd (Decision.of_eq_observe_iff.mp hdecision).1 hmark

end

end Reconcile

/-! ## Writes, as the store takes them -/

namespace Memory

variable {k : Kind} {s : Memory k} {fresh : Fresh} {c : StoreCall k} {key : Key} {a : Object k}

/-- Whatever is stored by then, a status is changed by a status write only. -/
theorem updateStatus_of_status_ne (hs : s.Filed) (ha : s.get? key = some a) {b : Object k}
    (hb : (s.perform fresh c).2.get? key = some b) (hne : b.status ≠ a.status) :
    ∃ o, c = .updateStatus o ∧ b.status = o.status := by
  by_cases hc : c.key? = some key
  · rcases perform_change hs fresh c hc with he | hchange
    · rw [hb, ha] at he
      cases he
      exact absurd rfl hne
    · rw [ha, hb] at hchange
      cases hchange with
      | updated => exact absurd rfl hne
      | restated _ o _ => exact ⟨o, rfl, rfl⟩
      | marked => exact absurd rfl hne
  · rw [get?_perform_of_ne hs fresh c hc, ha] at hb
    cases hb
    exact absurd rfl hne

/-- Whatever is stored by then, a marker goes by an update without it only. -/
theorem update_of_marker_gone (hs : s.Filed) (ha : s.get? key = some a) {marker : String} (hmark : a.hasMarker marker)
    (hgone : ∀ b, (s.perform fresh c).2.get? key = some b → ¬b.hasMarker marker) :
    ∃ o, c = .update o ∧ ¬o.hasMarker marker := by
  have hstays : ∀ {b : Object k}, (s.perform fresh c).2.get? key = some b → b.hasMarker marker → False :=
    fun hb h => hgone _ hb h
  by_cases hc : c.key? = some key
  · rcases perform_change hs fresh c hc with he | hchange
    · exact (hstays (he.trans ha) hmark).elim
    · rw [ha] at hchange
      generalize hafter : (s.perform fresh c).2.get? key = after at hchange
      cases hchange with
      | updated _ o _ _ =>
        refine ⟨o, rfl, fun ho => hstays hafter ?_⟩
        rwa [Object.hasMarker_updated]
      | released _ o _ hp =>
        refine ⟨o, rfl, fun ho => ?_⟩
        rw [← Object.hasMarker_updated a, Object.hasMarker_iff] at ho
        simp only [Object.purgeable, Bool.and_eq_true, List.isEmpty_iff] at hp
        rw [hp.2] at ho
        cases ho
      | restated => exact (hstays hafter hmark).elim
      | marked => exact (hstays hafter hmark).elim
      | purged _ _ hf =>
        rw [Object.hasMarker_iff, hf] at hmark
        cases hmark
  · exact (hstays ((get?_perform_of_ne hs fresh c hc).trans ha) hmark).elim

end Memory

namespace Reconcile

/-! ## Gates -/

/-- What comes before each backend call and each write of a reconcile that has read `m`. What the
store holds when it takes a write, others may have written meanwhile. -/
structure Gated (m : Machine) (tr : Trace (ReconcileCall.Answer (k := .machine))) : Prop where
  calls : (talk tr).map (·.1) <+:
      [.connect, .exist m.instanceName, .create (.ofSpec m.instanceName m.spec), .exist m.instanceName] ∨
    (talk tr).map (·.1) <+: [.connect, .exist m.instanceName, .delete m.instanceName, .exist m.instanceName]
  names : ∀ c ∈ (talk tr).map (·.1), c = .connect ∨ c = .exist m.instanceName ∨
    c = .create (.ofSpec m.instanceName m.spec) ∨ c = .delete m.instanceName
  once : ((talk tr).map (·.1)).countP (·.mutates) ≤ 1
  unmarked : ¬m.hasMarker machineMarker → talk tr = []
  call : ∀ before c x after, tr = before ++ ⟨.backend c, x⟩ :: after → MayCall m (talk before) c
  recorded : ∀ before c x after, tr = before ++ ⟨.store c, x⟩ :: after →
    ∀ (s : Memory .machine) fresh a b, s.Filed → s.get? m.key = some a → (s.perform fresh c).2.get? m.key = some b →
      b.status ≠ a.status → Ready b → b.status.instanceId = m.instanceName ∧ Seen m true (talk before)
  released : ∀ before c x after, tr = before ++ ⟨.store c, x⟩ :: after →
    ∀ (s : Memory .machine) fresh a, s.Filed → s.get? m.key = some a → a.hasMarker machineMarker →
      (∀ b, (s.perform fresh c).2.get? m.key = some b → ¬b.hasMarker machineMarker) → Seen m false (talk before)

theorem gated_afterRead {m : Machine} {tr : Trace (ReconcileCall.Answer (k := .machine))} {q : MachinePlan}
    (h : (afterRead m).Leaves tr q) : Gated m tr := by
  have hwrite : ∀ {before c x after}, tr = before ++ ⟨.store c, x⟩ :: after → MayWrite m (talk before) c := by
    rintro before c x after rfl
    obtain ⟨next, hbefore, -⟩ := h.split
    exact ((wary_machine m).leaves hbefore).2.1
  have htalk : Talk m (talk tr) := ((wary_machine m).leaves h).talks
  constructor
  case calls => exact htalk.calls
  case names => exact htalk.names
  case once => exact htalk.once
  case unmarked => exact fun hmark => talk_afterRead_of_unmarked hmark h
  case call =>
    rintro before c x after rfl
    obtain ⟨next, hbefore, -⟩ := h.split
    exact (((wary_machine m).leaves hbefore).2 x).talks.mayCall
  case recorded =>
    intro before c x after htr s fresh a b hs ha hb hne hready
    obtain ⟨o, rfl, hstatus⟩ := Memory.updateStatus_of_status_ne hs ha hb hne
    have := hwrite htr
    rw [MayWrite, Ready, ← hstatus] at this
    exact this hready
  case released =>
    intro before c x after htr s fresh a hs ha hmark hgone
    obtain ⟨o, rfl, ho⟩ := Memory.update_of_marker_gone hs ha hmark hgone
    exact hwrite htr ho

/-- A reconcile, up to any of its calls and however these were answered, reads its machine first; of one that
is not there or is not marked it tells the backend nothing, and for any other it keeps to its gates. -/
theorem backend_gated {key : Key} {tr : Trace (ReconcileCall.Answer (k := .machine))} {q : MachinePlan}
    (h : (machine key).Leaves tr q) :
    tr = [] ∨ ∃ answer rest, tr = ⟨.store (.get key), answer⟩ :: rest ∧ match answer with
      | .ok (some m) => Gated m rest
      | _ => talk rest = [] := by
  rw [machine_eq] at h
  cases h with
  | here => exact .inl rfl
  | @call _ _ answer rest _ h =>
    refine .inr ⟨answer, rest, rfl, ?_⟩
    match answer, h with
    | .error _, h =>
      cases h
      rfl
    | .ok none, h =>
      cases h
      rfl
    | .ok (some m), h => exact gated_afterRead h

/-- Nothing is there, a create succeeds and is seen, and the instance is recorded. -/
def confirmed (m : Machine) : Trace (ReconcileCall.Answer (k := .machine)) :=
  [⟨.backend .connect, .ok ()⟩, ⟨.backend (.exist m.instanceName), .ok false⟩,
    ⟨.backend (.create (.ofSpec m.instanceName m.spec)), .ok ()⟩, ⟨.backend (.exist m.instanceName), .ok true⟩,
    ⟨.wallClock, someTime⟩,
    ⟨.store (.updateStatus { m with status := adoptedStatus m m.instanceName someTime }), .error .unavailable⟩]

theorem backend_gated_confirmed :
    let m := newMachine ⟨"default", "w1"⟩ [machineMarker]
    (machine m.key).Leaves (⟨.store (.get m.key), .ok (some m)⟩ :: confirmed m) (.done (.error (.store .unavailable))) ∧
      Gated m (confirmed m) := by
  intro m
  have h : (machine m.key).Leaves (⟨.store (.get m.key), .ok (some m)⟩ :: confirmed m)
      (.done (.error (.store .unavailable))) :=
    .call (.call (.call (.call (.call (.call (.call (.here _)))))))
  refine ⟨h, ?_⟩
  rcases backend_gated h with hnil | ⟨answer, rest, htr, hgated⟩
  · cases hnil
  · cases htr
    exact hgated

end Reconcile

end MachineKeeper
