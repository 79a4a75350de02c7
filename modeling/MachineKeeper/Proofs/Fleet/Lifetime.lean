/-
  MachineKeeper.Proofs.Fleet.Lifetime — a machine stands for one instance as long as it lives.

  Which instance a machine stands for is read from its name first and from its status once one is
  recorded there. Clients are careful (`Careful`), so only reconciles write a status, and they do
  it from a copy that may be old.

  A reconcile that has read the marker can rely on more than the marker: while it is under way
  nobody else writes the status, and the machine is not purged, so its copy of the status is the
  stored one however often the machine has been written since. What it records is then what the
  stored machine stands for already (`Modest`). That is the accord `lasting`. It says nothing
  about the site as such; that the name stays is shown step by step from what the calls under way
  may be.

  Proved, for every order of moves, with the backend failing in any way and reconciles broken off
  anywhere:
  - `keeps_course`: a reconcile only asks about, and only records, what its machine stands for.
  - `lasts_step`: no move changes what a stored machine stands for.
  - `one_name_for_life`: so from its create to its purge all calls for a machine name one instance.
-/

import MachineKeeper.Proofs.Fleet.Orphan
import MachineKeeper.Proofs.Reconcile.Course

namespace MachineKeeper

open Reconcile

/-! ## What stays -/

/-- The same machine, standing for the same instance. -/
structure Lasts (m m' : Machine) : Prop where
  uid : m'.metadata.uid = m.metadata.uid
  name : m'.instanceName = m.instanceName
  recorded : m.status.instanceId ≠ "" → m'.status.instanceId = m.status.instanceId

namespace Lasts

theorem refl (m : Machine) : Lasts m m := ⟨rfl, rfl, fun _ => rfl⟩

theorem trans {a b c : Machine} (hab : Lasts a b) (hbc : Lasts b c) : Lasts a c := by
  refine ⟨hbc.uid.trans hab.uid, hbc.name.trans hab.name, fun h => ?_⟩
  have hb : b.status.instanceId ≠ "" := by
    rw [hab.recorded h]
    exact h
  exact (hbc.recorded hb).trans (hab.recorded h)

/-- A status that records what the machine stands for, or nothing new. -/
theorem statusUpdated {m o : Machine}
    (h : o.status.instanceId = m.status.instanceId ∨ o.status.instanceId = m.instanceName) :
    Lasts m (m.statusUpdated o) := by
  by_cases hempty : m.status.instanceId = ""
  · refine ⟨rfl, ?_, fun hne => absurd hempty hne⟩
    rcases h with h | h
    · simp [Object.instanceName, Object.statusUpdated, h]
    · have hname : m.instanceName = m.metadata.name := if_pos hempty
      by_cases hanon : m.metadata.name = ""
      · simp [Object.instanceName, Object.statusUpdated, h, hanon]
      · simp [Object.instanceName, Object.statusUpdated, h, hempty]
  · have hname : m.instanceName = m.status.instanceId := if_neg hempty
    have hid : o.status.instanceId = m.status.instanceId := by
      rcases h with h | h
      · exact h
      · exact h.trans hname
    refine ⟨rfl, ?_, fun _ => hid⟩
    simp [Object.instanceName, Object.statusUpdated, hid]

end Lasts

namespace Memory

variable {s : Memory .machine} {key : Key} {m m' : Machine}

/-- A call under which the machine is stored before and after it. -/
theorem lasts_perform (hs : s.Filed) (fresh : Fresh) (c : StoreCall .machine) (hm : s.get? key = some m)
    (hstatus : ∀ o, c = .updateStatus o → o.key = key →
      o.status.instanceId = m.status.instanceId ∨ o.status.instanceId = m.instanceName)
    (hm' : (s.perform fresh c).2.get? key = some m') : Lasts m m' := by
  by_cases hc : c.key? = some key
  · rcases perform_change hs fresh c hc with he | hchange
    · rw [he, hm] at hm'
      cases hm'
      exact .refl m
    · rw [hm, hm'] at hchange
      cases hchange with
      | updated _ o hv hp =>
        cases hc
        exact ⟨rfl, Object.instanceName_updated (hs _ m hm).symm, fun _ => rfl⟩
      | restated _ o hv =>
        cases hc
        exact .statusUpdated (hstatus o rfl rfl)
      | marked => exact ⟨rfl, rfl, fun _ => rfl⟩
  · rw [get?_perform_of_ne hs fresh c hc, hm] at hm'
    cases hm'
    exact .refl m

/-- A write that takes no marker off and states nothing leaves a marked machine marked, with its status. -/
theorem marked_perform (hs : s.Filed) (fresh : Fresh) (c : StoreCall .machine)
    (hupdate : ∀ o, c = .update o → o.key = key → m.Current o → o.hasMarker machineMarker)
    (hstatus : ∀ o, c = .updateStatus o → o.key ≠ key) (hm : s.get? key = some m) (hmark : m.hasMarker machineMarker) :
    ∃ m', (s.perform fresh c).2.get? key = some m' ∧ m'.hasMarker machineMarker ∧ m'.status = m.status := by
  by_cases hc : c.key? = some key
  · rcases perform_change hs fresh c hc with he | hchange
    · exact ⟨m, he.trans hm, hmark, rfl⟩
    · rw [hm] at hchange
      generalize hafter : (s.perform fresh c).2.get? key = after at hchange
      cases hchange with
      | updated _ o hv hp =>
        refine ⟨m.updated o, rfl, ?_, rfl⟩
        rw [Object.hasMarker_updated]
        exact hupdate o rfl (Option.some.inj hc) hv
      | released _ o hv hp =>
        have ho := hupdate o rfl (Option.some.inj hc) hv
        rw [← Object.hasMarker_updated m, Object.hasMarker_iff] at ho
        simp only [Object.purgeable, Bool.and_eq_true, List.isEmpty_iff] at hp
        rw [hp.2] at ho
        cases ho
      | restated _ o hv => exact absurd (Option.some.inj hc) (hstatus o rfl)
      | marked => exact ⟨m.deleted fresh.now, rfl, hmark, rfl⟩
      | purged _ _ hf =>
        rw [Object.hasMarker_iff, hf] at hmark
        cases hmark
  · exact ⟨m, (get?_perform_of_ne hs fresh c hc).trans hm, hmark, rfl⟩

end Memory

/-! ## The accord -/

/-- A machine is stored under the key that carries the marker and has this status. -/
def Memory.Marks (s : Memory .machine) (key : Key) (status : MachineStatus) : Prop :=
  ∃ m, s.get? key = some m ∧ m.hasMarker machineMarker ∧ m.status = status

/-- The calls of a reconcile of the key: about what the stored machine stands for, and no other key. -/
def Modest (key : Key) (s : Memory .machine) : ReconcileCall .machine → Prop
  | .backend c => ∀ name ∈ c.name?, ∃ m, s.get? key = some m ∧ m.instanceName = name
  | .store (.update o) => o.key = key
  | .store (.updateStatus o) => o.key = key ∧ ∃ m, s.get? key = some m ∧
      (o.status.instanceId = m.status.instanceId ∨ o.status.instanceId = m.instanceName)
  | .store (.create _) | .store (.delete _) => False
  | .store (.get _) | .store .list | .wallClock => True

/-- While a key is marked, its status is its own. -/
def lasting : Accord where
  inv _ := True
  spares key s t := ∀ status, s.store.Marks key status → t.store.Marks key status
  may key c s := Modest key s.store c
  spares_refl _ _ _ h := h
  spares_trans h₁ h₂ status h := h₂ status (h₁ status h)

namespace Lasting

variable {key : Key} {m : Machine} {s : Site}

/-- What a reconcile relies on that has read the machine. -/
def Knows (key : Key) (m : Machine) (s : Site) : Prop := m.key = key ∧ s.store.Marks key m.status

theorem Knows.outlasts {t : Site} (h : Knows key m s) (hst : lasting.spares key s t) : Knows key m t :=
  ⟨h.1, hst m.status h.2⟩

/-- The stored machine stands for what the copy does. -/
theorem Knows.stored (h : Knows key m s) :
    ∃ current, s.store.get? key = some current ∧ current.status = m.status ∧ current.instanceName = m.instanceName := by
  obtain ⟨hk, current, hcurrent, _, hstatus⟩ := h
  refine ⟨current, hcurrent, hstatus, Object.instanceName_eq_of ?_ (by rw [hstatus])⟩
  rw [s.filed key current hcurrent, hk]

theorem owes_store {t : Site} (h : t.store = s.store) : (lasting.terms key).owes s t := by
  refine ⟨trivial, fun other _ status hs => ?_⟩
  rw [h]
  exact hs

/-- A write under the key leaves the others alone. -/
theorem owes_write (fresh : Fresh) {c : StoreCall .machine} (hc : c.key? = some key) :
    (lasting.terms key).owes s (s.call fresh c) := by
  refine ⟨trivial, fun other hne status hs => ?_⟩
  obtain ⟨m, hm, hmark⟩ := hs
  refine ⟨m, ?_, hmark⟩
  rw [← hm]
  apply Memory.get?_perform_of_ne s.filed
  intro ho
  rw [hc] at ho
  exact hne (Option.some.inj ho).symm

theorem keeps_write {o : Machine} {next : Except StoreFault Machine → MachinePlan} (hs : Knows key m s)
    (ho : o.key = m.key) (hnext : ∀ x t, (next x).Keeps (lasting.terms key) t) :
    (Plan.call (.store (.update o)) next).Keeps (lasting.terms key) s := by
  refine Accord.keeps_act Knows.outlasts hs (fun t ht _ => ho.trans ht.1) fun chance t ht _ => ⟨?_, hnext _ _⟩
  exact owes_write chance.fresh (congrArg some (ho.trans ht.1))

theorem keeps_state {o : Machine} {next : Except StoreFault Machine → MachinePlan} (hs : Knows key m s)
    (ho : o.key = m.key) (hid : o.status.instanceId = m.status.instanceId ∨ o.status.instanceId = m.instanceName)
    (hnext : ∀ x t, (next x).Keeps (lasting.terms key) t) :
    (Plan.call (.store (.updateStatus o)) next).Keeps (lasting.terms key) s := by
  refine Accord.keeps_act Knows.outlasts hs (fun t ht _ => ?_) fun chance t ht _ => ⟨?_, hnext _ _⟩
  · obtain ⟨current, hcurrent, hstatus, hname⟩ := ht.stored
    refine ⟨ho.trans ht.1, current, hcurrent, ?_⟩
    rw [hstatus, hname]
    exact hid
  · exact owes_write chance.fresh (congrArg some (ho.trans ht.1))

/-- A backend call about the instance of the machine. -/
theorem keeps_backend {c : BackendCall} {next : c.Answer → MachinePlan} (hs : Knows key m s)
    (hc : ∀ name ∈ c.name?, name = m.instanceName) (hnext : ∀ x t, Knows key m t → (next x).Keeps (lasting.terms key) t) :
    (Plan.call (.backend c) next).Keeps (lasting.terms key) s := by
  refine Accord.keeps_act Knows.outlasts hs (fun t ht _ => ?_) fun chance t ht _ =>
    ⟨owes_store (Site.store_backend key chance t c), ?_⟩
  · intro name hname
    obtain ⟨current, hcurrent, _, hstands⟩ := ht.stored
    exact ⟨current, hcurrent, hstands.trans (hc name hname).symm⟩
  · refine hnext _ _ ⟨ht.1, ?_⟩
    rw [Site.store_backend]
    exact ht.2

theorem keeps_concluded (requeue : Requeue) (x : Except StoreFault Machine) (t : Site) :
    (concluded requeue x).Keeps (lasting.terms key) t := by
  cases x <;> trivial

/-- Wherever a reconcile stands, it goes on about the instance of its machine. -/
theorem keeps_course {h : Heard} {p : MachinePlan} (hc : Course m h p) (hs : Knows key m s) :
    p.Keeps (lasting.terms key) s := by
  induction hc generalizing s with
  | connect _ _ hfault hok =>
    refine keeps_backend hs (fun _ hname => by cases hname) fun x t ht => ?_
    cases x with
    | error fault => exact hfault fault ht
    | ok _ => exact hok ht
  | create _ _ _ hfault hok | delete _ _ _ hfault hok =>
    refine keeps_backend hs (fun _ hname => (Option.some.inj hname).symm) fun x t ht => ?_
    cases x with
    | error fault => exact hfault fault ht
    | ok _ => exact hok ht
  | look _ _ hfault hok | confirm _ _ hfault hok =>
    refine keeps_backend hs (fun _ hname => (Option.some.inj hname).symm) fun x t ht => ?_
    cases x with
    | error fault => exact hfault fault ht
    | ok there => exact hok there ht
  | clock _ hnext =>
    refine Accord.keeps_look Knows.outlasts (fun _ _ => rfl) hs (fun _ _ _ => trivial) fun chance t ht _ => ?_
    exact hnext _ ht
  | told | settled => trivial
  | tell fault now _ _ => exact keeps_state hs rfl (.inl rfl) fun _ _ => trivial
  | record now _ _ _ => exact keeps_state hs rfl (.inr rfl) (keeps_concluded .never)
  | release _ _ => exact keeps_write hs rfl (keeps_concluded .never)

theorem keeps_machine (key : Key) (s : Site) : (machine key).Keeps (lasting.terms key) s := by
  rw [machine_eq_onRead]
  refine Accord.keeps_look (P := fun _ => True) (fun _ _ => trivial) (fun _ _ => rfl) trivial (fun _ _ _ => trivial)
    fun chance t _ _ => ?_
  show (onRead (.ok (t.store.get? key))).Keeps (lasting.terms key) t
  cases hm : t.store.get? key with
  | none => trivial
  | some m =>
    have hk : m.key = key := t.filed key m hm
    show (afterRead m).Keeps (lasting.terms key) t
    rcases afterRead_cases m with ⟨_, _, hdone⟩ | ⟨_, _, hwrite⟩ | ⟨hmark, hc⟩
    · rw [hdone]
      trivial
    · rw [hwrite]
      refine Accord.keeps_act (P := fun _ => True) (fun _ _ => trivial) trivial (fun _ _ _ => hk) fun chance u _ _ => ?_
      exact ⟨owes_write chance.fresh (congrArg some hk), keeps_concluded .immediate _ _⟩
    · exact keeps_course hc ⟨hk, m, hm, hmark, rfl⟩

theorem kept : lasting.Kept Careful where
  start _ := trivial
  client {s c} fresh _ hc := by
    refine ⟨trivial, fun key status hs => ?_⟩
    obtain ⟨m, hm, hmark, rfl⟩ := hs
    apply Memory.marked_perform s.filed fresh c ?_ ?_ hm hmark
    · intro o ho hk hv
      subst ho
      exact hc m (hk ▸ hm) hmark hv
    · intro o ho
      subst ho
      exact hc.elim
  appear _ _ := ⟨trivial, fun _ _ h => h⟩
  vanish _ _ := ⟨trivial, fun _ _ h => h⟩
  reconcile key _ := keeps_machine key _

end Lasting

/-! ## Lives -/

namespace Fleet

variable {key : Key} {m m' : Machine}

/-- The machine under the key stands for the same instance after every move that it outlives. -/
theorem lasts_step {f : Fleet} (hf : lasting.Holds f) {mv : Move} (hallowed : f.Allowed Careful mv)
    (hm : f.site.store.get? key = some m) (hm' : (f.step mv).site.store.get? key = some m') : Lasts m m' := by
  have hsame : ∀ {m'' : Machine}, f.site.store.get? key = some m'' → Lasts m m'' := by
    intro m'' hm''
    rw [hm] at hm''
    cases hm''
    exact .refl m
  cases mv with
  | client c fresh =>
    refine Memory.lasts_perform f.site.filed fresh c hm ?_ hm'
    intro o ho _
    subst ho
    exact hallowed.elim
  | start k =>
    simp only [step] at hm'
    split at hm' <;> exact hsame hm'
  | stop k => exact hsame hm'
  | appear name => exact hsame hm'
  | vanish name => exact hsame hm'
  | proceed k chance =>
    simp only [step] at hm'
    split at hm'
    · rename_i c next hflight
      have hmay : Modest k f.site.store c := Accord.may_of_issues hf ⟨next, hflight⟩
      cases c with
      | store c =>
        refine Memory.lasts_perform f.site.filed chance.fresh c hm ?_ hm'
        intro o ho hk
        subst ho
        obtain ⟨hk', current, hcurrent, hid⟩ := hmay
        rw [← hk', hk, hm] at hcurrent
        cases hcurrent
        exact hid
      | backend c =>
        rw [Site.store_backend] at hm'
        exact hsame hm'
      | wallClock => exact hsame hm'
    · exact hsame hm'

/-- The key stays stored: its machine is not purged on the way. -/
def Lives (key : Key) : Fleet → List Move → Prop
  | f, [] => (f.site.store.get? key).isSome
  | f, mv :: ms => (f.site.store.get? key).isSome ∧ Lives key (f.step mv) ms

theorem lasts_run {f : Fleet} (hf : lasting.Holds f) {ms : List Move} (hallowed : AllAllowed Careful f ms)
    (hm : f.site.store.get? key = some m) (hlives : Lives key f ms) :
    ∃ m', (f.run ms).site.store.get? key = some m' ∧ Lasts m m' := by
  induction ms generalizing f m with
  | nil => exact ⟨m, hm, .refl m⟩
  | cons mv ms ih =>
    have hnext : ((f.step mv).site.store.get? key).isSome := by
      cases ms with
      | nil => exact hlives.2
      | cons mv' ms => exact hlives.2.1
    obtain ⟨m', hm'⟩ := Option.isSome_iff_exists.mp hnext
    obtain ⟨m'', hm'', hlasts⟩ := ih (Accord.holds_step Lasting.kept hf mv hallowed.1) hallowed.2 hm' hlives.2
    exact ⟨m'', hm'', (lasts_step hf hallowed.1 hm hm').trans hlasts⟩

end Fleet

/-- From any state on, and as long as it lives, a stored machine stands for the same instance: its
name does not change, nor does an instance once recorded, and every call that its reconcile is
about to make names that instance. -/
theorem one_name_for_life {f : Fleet} (hf : Fleet.Reach Careful f) {key : Key} {m : Machine}
    (hm : f.site.store.get? key = some m) {ms : List Fleet.Move} (hallowed : Fleet.AllAllowed Careful f ms)
    (hlives : Fleet.Lives key f ms) :
    (∃ m', (f.run ms).site.store.get? key = some m' ∧ m'.metadata.uid = m.metadata.uid ∧
      m'.instanceName = m.instanceName ∧
      (m.status.instanceId ≠ "" → m'.status.instanceId = m.status.instanceId)) ∧
    ∀ c, (f.run ms).Issues key (.backend c) → ∀ name ∈ c.name?, name = m.instanceName := by
  have hholds := Accord.holds Lasting.kept hf
  obtain ⟨m', hm', hlasts⟩ := Fleet.lasts_run hholds hallowed hm hlives
  refine ⟨⟨m', hm', hlasts.uid, hlasts.name, hlasts.recorded⟩, fun c hc name hname => ?_⟩
  have hlater := Accord.holds Lasting.kept (hf.run hallowed)
  obtain ⟨current, hcurrent, rfl⟩ := Accord.may_of_issues hlater hc name hname
  rw [hm'] at hcurrent
  cases hcurrent
  exact hlasts.name

/-- A machine that has been given an instance from the start. -/
def adoptedMachine : Machine :=
  { newMachine ⟨"default", "w1"⟩ [] with status.instanceId := "vm-7" }

/-- That machine, as it was created. -/
def adoptedFleet : Fleet :=
  (Fleet.start fun _ => false).step (.client (.create adoptedMachine) ⟨"u1", someTime⟩)

/-- The marker is put on, and before the next reconcile looks at the instance a client has written
the machine and a third party has brought the instance. -/
def adoptedMoves : List Fleet.Move :=
  let key : Key := ⟨"default", "w1"⟩
  let written : Machine := { newMachine key [machineMarker] with metadata.resourceVersion := 2, spec.image := "debian" }
  [.start key, .proceed key Fleet.lucky, .proceed key Fleet.lucky, .stop key,
    .start key, .proceed key Fleet.lucky, .proceed key Fleet.lucky,
    .client (.update written) ⟨"", someTime⟩, .appear "vm-7"]

theorem one_name_for_life_adopted :
    let key : Key := ⟨"default", "w1"⟩
    let m := adoptedMachine.created ⟨"u1", someTime⟩
    Fleet.Reach Careful adoptedFleet ∧ adoptedFleet.site.store.get? key = some m ∧
      Fleet.AllAllowed Careful adoptedFleet adoptedMoves ∧ Fleet.Lives key adoptedFleet adoptedMoves ∧
      (adoptedFleet.run adoptedMoves).Issues key (.backend (.exist "vm-7")) ∧ m.instanceName = "vm-7" ∧
      ∃ m', (adoptedFleet.run adoptedMoves).site.store.get? key = some m' ∧ m'.instanceName = "vm-7" := by
  intro key m
  have hreach : Fleet.Reach Careful adoptedFleet := .step _ (.start _) trivial
  have hm : adoptedFleet.site.store.get? key = some m := rfl
  have hallowed : Fleet.AllAllowed Careful adoptedFleet adoptedMoves :=
    ⟨trivial, trivial, trivial, trivial, trivial, trivial, trivial, fun _ _ _ _ => rfl, trivial, trivial⟩
  have hlives : Fleet.Lives key adoptedFleet adoptedMoves := ⟨rfl, rfl, rfl, rfl, rfl, rfl, rfl, rfl, rfl, rfl⟩
  obtain ⟨⟨m', hm', -, hname, -⟩, -⟩ := one_name_for_life hreach hm hallowed hlives
  exact ⟨hreach, hm, hallowed, hlives, ⟨_, rfl⟩, rfl, m', hm', hname⟩

end MachineKeeper
