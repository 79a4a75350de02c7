/-
  MachineKeeper.Proofs.Fleet.Basic — reconciles of many machines over one store and one backend.

  Actors. Clients make store calls; which ones they may make is a parameter (`Clients`). Each key
  has at most one reconcile under way, which stands somewhere in its plan and goes on by one call
  at a time. A reconcile can be broken off between any two of its calls, and a third party puts
  instances in place and takes them away.

  The backend answers as it likes (`Chance`): a create or delete may succeed or fail, and either
  way have its effect or not; only a look at an instance is truthful, unless it fails. An instance
  remembers where it comes from (`Origin`), and for one that a reconcile made, for which key. A
  create that takes effect makes the instance anew, also over one that is there.

  What every reachable state has in common is shown with an `Accord`: an assertion about the
  site, for each key what others leave alone for its sake, and what a reconcile has to see to
  before a call.

  Proved:
  - `Accord.holds`: where every fresh reconcile keeps the terms of an accord, and clients and
    third parties do, its assertion holds in every reachable state, and each reconcile under way
    keeps its terms from there on, in whatever order all of them have moved.
-/

import Mathlib.Logic.Function.Basic
import MachineKeeper.Proofs.Store.Change
import MachineKeeper.Proofs.Terms
import MachineKeeper.Reconcile.Machine

namespace MachineKeeper

inductive Origin where
  | foreign
  | made (key : Key)
  deriving DecidableEq

/-- What the reconciles share. -/
structure Site where
  store : Memory .machine
  instances : String → Option Origin
  filed : store.Filed

/-- What an answer depends on beside the site. -/
structure Chance where
  fresh : Fresh
  /-- What a connect, create or delete reports, and whether a look at an instance fails. -/
  report : Except BackendFault Unit
  /-- Whether a create or delete takes effect, whatever it reports. -/
  effect : Bool

namespace Site

def put (s : Site) (name : String) (o : Origin) : Site :=
  { s with instances := Function.update s.instances name (some o) }

def take (s : Site) (name : String) : Site :=
  { s with instances := Function.update s.instances name none }

/-- The site after a store call. -/
def call (fresh : Fresh) (s : Site) (c : StoreCall .machine) : Site :=
  { s with store := (s.store.perform fresh c).2, filed := Memory.perform_filed s.filed fresh c }

/-- The answer to a call of the reconcile of `key`, and the site afterwards. -/
def answer (key : Key) (chance : Chance) (s : Site) : (c : ReconcileCall .machine) → c.Answer × Site
  | .store c => ((s.store.perform chance.fresh c).1, s.call chance.fresh c)
  | .backend .connect => (chance.report, s)
  | .backend (.create r) => (chance.report, if chance.effect then s.put r.name (.made key) else s)
  | .backend (.delete name) => (chance.report, if chance.effect then s.take name else s)
  | .backend (.exist name) => (chance.report.map fun _ => (s.instances name).isSome, s)
  | .backend .close => (chance.report, s)
  | .wallClock => (chance.fresh.now, s)

/-- The backend does not write. -/
theorem store_backend (key : Key) (chance : Chance) (s : Site) (c : BackendCall) :
    (s.answer key chance (.backend c)).2.store = s.store := by
  cases c with
  | connect | exist | close => rfl
  | create | delete =>
    simp only [answer]
    split <;> rfl

/-- A look that does not fail is truthful. -/
theorem exist_of_answer {key : Key} {chance : Chance} {s : Site} {name : String} {there : Bool}
    (h : (s.answer key chance (.backend (.exist name))).1 = .ok there) : (s.instances name).isSome = there := by
  simp only [answer] at h
  cases hr : chance.report with
  | error fault => rw [hr] at h; cases h
  | ok _ => rw [hr] at h; exact Except.ok.inj h

end Site

structure Fleet where
  site : Site
  /-- Where the reconcile of a key stands, if one is under way. -/
  flights : Key → Option Reconcile.MachinePlan

namespace Fleet

inductive Move where
  | client (c : StoreCall .machine) (fresh : Fresh)
  | start (key : Key)
  /-- The reconcile of the key makes its next call. -/
  | proceed (key : Key) (chance : Chance)
  /-- It has ended, or is broken off. -/
  | stop (key : Key)
  | appear (name : String)
  | vanish (name : String)

def step (f : Fleet) : Move → Fleet
  | .client c fresh => { f with site := f.site.call fresh c }
  | .start key =>
    if (f.flights key).isSome then f
    else { f with flights := Function.update f.flights key (some (Reconcile.machine key)) }
  | .proceed key chance =>
    match f.flights key with
    | some (.call c next) =>
      let (x, site) := f.site.answer key chance c
      ⟨site, Function.update f.flights key (some (next x))⟩
    | _ => f
  | .stop key => { f with flights := Function.update f.flights key none }
  | .appear name => { f with site := f.site.put name .foreign }
  | .vanish name => { f with site := f.site.take name }

/-- An empty store, instances of others, and nothing under way. -/
def start (there : String → Bool) : Fleet where
  site := ⟨Catalog.empty, fun name => if there name then some .foreign else none, Memory.filed_empty⟩
  flights := fun _ => none

/-- Everything goes well. -/
def lucky : Chance := ⟨⟨"", someTime⟩, .ok (), true⟩

end Fleet

/-- The calls that clients may make, given what is stored. -/
abbrev Clients := Memory .machine → StoreCall .machine → Prop

namespace Fleet

def Allowed (clients : Clients) (f : Fleet) : Move → Prop
  | .client c _ => clients f.site.store c
  | _ => True

inductive Reach (clients : Clients) : Fleet → Prop
  | start (there : String → Bool) : Reach clients (start there)
  | step {f : Fleet} (m : Move) : Reach clients f → Allowed clients f m → Reach clients (f.step m)

def run (f : Fleet) (ms : List Move) : Fleet := ms.foldl step f

def AllAllowed (clients : Clients) : Fleet → List Move → Prop
  | _, [] => True
  | f, m :: ms => Allowed clients f m ∧ AllAllowed clients (f.step m) ms

theorem Reach.run {clients : Clients} {ms : List Move} :
    ∀ {f : Fleet}, Reach clients f → AllAllowed clients f ms → Reach clients (f.run ms) := by
  induction ms with
  | nil => exact fun h _ => h
  | cons m ms ih => exact fun h hms => ih (.step m h hms.1) hms.2

/-- The next call of the reconcile of `key`. -/
def Issues (f : Fleet) (key : Key) (c : ReconcileCall .machine) : Prop :=
  ∃ next, f.flights key = some (.call c next)

end Fleet

/-! ## What all reconciles agree on -/

/-- What holds of the site, and what is left alone for the sake of each key. -/
structure Accord where
  inv : Site → Prop
  spares : Key → Site → Site → Prop
  may : Key → ReconcileCall .machine → Site → Prop
  spares_refl : ∀ key s, spares key s s
  spares_trans : ∀ {key s t u}, spares key s t → spares key t u → spares key s u

namespace Accord

def terms (A : Accord) (key : Key) : Terms (ReconcileCall.Answer (k := .machine)) Site where
  moves s t := A.inv t ∧ A.spares key s t
  answers c s x t := ∃ chance, s.answer key chance c = (x, t)
  may := A.may key
  owes s t := A.inv t ∧ ∀ other ≠ key, A.spares other s t
  moves_trans h₁ h₂ := ⟨h₂.1, A.spares_trans h₁.2 h₂.2⟩

variable {A : Accord}

/-! ## The calls of a reconcile, under an accord -/

theorem owes_self {key : Key} {s : Site} (hs : A.inv s) : (A.terms key).owes s s :=
  ⟨hs, fun other _ => A.spares_refl other s⟩

/-- A call, where `P` holds and outlasts what others do. -/
theorem keeps_act {P : Site → Prop} {key : Key} (stable : ∀ {s t}, P s → A.spares key s t → P t)
    {c : ReconcileCall .machine} {next : c.Answer → Reconcile.MachinePlan} {s : Site} (hs : P s)
    (hmay : ∀ t, P t → A.inv t → A.may key c t)
    (hact : ∀ chance t, P t → A.inv t →
      (A.terms key).owes t (t.answer key chance c).2 ∧
        (next (t.answer key chance c).1).Keeps (A.terms key) (t.answer key chance c).2) :
    (Plan.call c next).Keeps (A.terms key) s := by
  have hstable : ∀ {s t}, P s → (A.terms key).moves s t → P t := fun hs hst => stable hs hst.2
  refine Terms.keeps_call hstable hs (fun t ht hst => hmay t ht hst.1) ?_
  rintro t x u ht hst ⟨chance, hu⟩
  have h := hact chance t ht hst.1
  rw [hu] at h
  exact h

/-- A call that leaves the site as it is. -/
theorem keeps_look {P : Site → Prop} {key : Key} (stable : ∀ {s t}, P s → A.spares key s t → P t)
    {c : ReconcileCall .machine} (hc : ∀ chance t, (Site.answer key chance t c).2 = t)
    {next : c.Answer → Reconcile.MachinePlan} {s : Site} (hs : P s) (hmay : ∀ t, P t → A.inv t → A.may key c t)
    (hnext : ∀ chance t, P t → A.inv t → (next (t.answer key chance c).1).Keeps (A.terms key) t) :
    (Plan.call c next).Keeps (A.terms key) s := by
  refine keeps_act stable hs hmay fun chance t ht hi => ?_
  rw [hc]
  exact ⟨owes_self hi, hnext chance t ht hi⟩

/-! ## Runs -/

/-- What clients and third parties do is in accord. -/
structure Kept (A : Accord) (clients : Clients) : Prop where
  start : ∀ there, A.inv (Fleet.start there).site
  client : ∀ {s : Site} {c : StoreCall .machine} (fresh : Fresh), A.inv s → clients s.store c →
    A.inv (s.call fresh c) ∧ ∀ key, A.spares key s (s.call fresh c)
  appear : ∀ {s : Site} (name : String), A.inv s →
    A.inv (s.put name .foreign) ∧ ∀ key, A.spares key s (s.put name .foreign)
  vanish : ∀ {s : Site} (name : String), A.inv s → A.inv (s.take name) ∧ ∀ key, A.spares key s (s.take name)
  /-- So is a reconcile, from its start. -/
  reconcile : ∀ {s : Site} (key : Key), A.inv s → (Reconcile.machine key).Keeps (A.terms key) s

def Holds (A : Accord) (f : Fleet) : Prop :=
  A.inv f.site ∧ ∀ key p, f.flights key = some p → p.Keeps (A.terms key) f.site

variable {clients : Clients}

/-- A move of the site that spares every key. -/
theorem holds_of_spares {f : Fleet} (h : A.Holds f) {s : Site} (hs : A.inv s ∧ ∀ key, A.spares key f.site s) :
    A.Holds { f with site := s } :=
  ⟨hs.1, fun key p hp => Terms.keeps_of_moves (h.2 key p hp) ⟨hs.1, hs.2 key⟩⟩

/-- A reconcile under way after the one of `key` has moved: that one, or one of another key. -/
theorem flight_cases {flights : Key → Option Reconcile.MachinePlan} {key other : Key}
    {moved : Option Reconcile.MachinePlan} {p : Reconcile.MachinePlan}
    (h : Function.update flights key moved other = some p) :
    (other = key ∧ moved = some p) ∨ (other ≠ key ∧ flights other = some p) := by
  by_cases he : other = key
  · subst he
    rw [Function.update_self] at h
    exact .inl ⟨rfl, h⟩
  · rw [Function.update_of_ne he] at h
    exact .inr ⟨he, h⟩

theorem holds_start (hA : A.Kept clients) {f : Fleet} (h : A.Holds f) (key : Key) :
    A.Holds { f with flights := Function.update f.flights key (some (Reconcile.machine key)) } := by
  refine ⟨h.1, fun other p hp => ?_⟩
  rcases flight_cases hp with ⟨rfl, he⟩ | ⟨_, ho⟩
  · cases he
    exact hA.reconcile other h.1
  · exact h.2 other p ho

theorem holds_stop {f : Fleet} (h : A.Holds f) (key : Key) :
    A.Holds { f with flights := Function.update f.flights key none } := by
  refine ⟨h.1, fun other p hp => ?_⟩
  rcases flight_cases hp with ⟨_, he⟩ | ⟨_, ho⟩
  · cases he
  · exact h.2 other p ho

/-- One reconcile goes on by a call; to all others it is one more move of others. -/
theorem holds_proceed {f : Fleet} (h : A.Holds f) {key : Key} {c : ReconcileCall .machine}
    {next : c.Answer → Reconcile.MachinePlan} (hf : f.flights key = some (.call c next)) (chance : Chance) :
    A.Holds ⟨(f.site.answer key chance c).2,
      Function.update f.flights key (some (next (f.site.answer key chance c).1))⟩ := by
  have hcall := (h.2 key _ hf f.site ⟨h.1, A.spares_refl key f.site⟩).2
  obtain ⟨⟨hinv, hothers⟩, hnext⟩ := hcall (f.site.answer key chance c).1 (f.site.answer key chance c).2 ⟨chance, rfl⟩
  refine ⟨hinv, fun other p hp => ?_⟩
  rcases flight_cases hp with ⟨rfl, he⟩ | ⟨hne, ho⟩
  · cases he
    exact hnext
  · exact Terms.keeps_of_moves (h.2 other p ho) ⟨hinv, hothers other hne⟩

theorem holds_step (hA : A.Kept clients) {f : Fleet} (h : A.Holds f) (m : Fleet.Move)
    (hm : f.Allowed clients m) : A.Holds (f.step m) := by
  cases m with
  | client c fresh => exact holds_of_spares h (hA.client fresh h.1 hm)
  | start key =>
    simp only [Fleet.step]
    split
    · exact h
    · exact holds_start hA h key
  | proceed key chance =>
    simp only [Fleet.step]
    split
    · rename_i c next hf
      exact holds_proceed h hf chance
    · exact h
  | stop key => exact holds_stop h key
  | appear name => exact holds_of_spares h (hA.appear name h.1)
  | vanish name => exact holds_of_spares h (hA.vanish name h.1)

theorem holds (hA : A.Kept clients) {f : Fleet} (h : Fleet.Reach clients f) : A.Holds f := by
  induction h with
  | start there => exact ⟨hA.start there, fun _ _ hp => by cases hp⟩
  | step m _ hm ih => exact holds_step hA ih m hm

/-- A call under way is one that may be made. -/
theorem may_of_issues {f : Fleet} (h : A.Holds f) {key : Key} {c : ReconcileCall .machine}
    (hc : f.Issues key c) : A.may key c f.site := by
  obtain ⟨next, hf⟩ := hc
  exact (h.2 key _ hf f.site ⟨h.1, A.spares_refl key f.site⟩).1

end Accord

end MachineKeeper
