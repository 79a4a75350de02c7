/-
  MachineKeeper.Proofs.Fleet.Orphan — no instance is left without its machine.

  Clients are careful: they never write a status, and no update of theirs takes the marker off a
  stored machine that carries it (`Careful`). They create, update and delete otherwise as they
  like, at any time.

  The marker is what guards an instance. A reconcile that has read the marker can rely on it:
  nobody else takes it off, and nobody else changes what instance the machine stands for
  (`Memory.Guards`). So the machine still guards the name when the create is issued, however old
  the reconcile's copy of the machine is by then. A reconcile takes the marker off only after it
  has seen the instance gone; from then on only itself could make that instance again for this
  key, while other keys that make it guard it themselves. That is the accord `guarding`.

  Proved, for every order of moves, with the backend failing in any way and reconciles broken
  off anywhere:
  - `no_orphan`: every instance that a reconcile made is guarded by the machine it was made for,
    and so is the name of every create at the moment it is issued.
-/

import MachineKeeper.Proofs.Fleet.Watch

namespace MachineKeeper

/-- A machine is stored under the key that carries the marker and stands for the instance. -/
def Memory.Guards (s : Memory .machine) (key : Key) (name : String) : Prop :=
  ∃ m, s.get? key = some m ∧ m.hasMarker machineMarker ∧ m.instanceName = name

/-- No status writes, and no update that takes the marker off. -/
def Careful : Clients := fun s c => match c with
  | .updateStatus _ => False
  | .update o => ∀ m, s.get? o.key = some m → m.hasMarker machineMarker → m.Current o → o.hasMarker machineMarker
  | _ => True

namespace Memory

theorem guards_unique {s : Memory .machine} {key : Key} {a b : String} (ha : s.Guards key a)
    (hb : s.Guards key b) : a = b := by
  obtain ⟨m, hm, -, rfl⟩ := ha
  obtain ⟨m', hm', -, rfl⟩ := hb
  rw [hm] at hm'
  cases hm'
  rfl

theorem guards_of_get?_eq {s t : Memory .machine} {key : Key} {name : String} (h : t.get? key = s.get? key)
    (hs : s.Guards key name) : t.Guards key name := by
  obtain ⟨m, hm, hg⟩ := hs
  exact ⟨m, h ▸ hm, hg⟩

/-- A write that keeps the marker and does not restate another instance leaves all names guarded. -/
theorem guards_perform {s : Memory .machine} (hs : s.Filed) (fresh : Fresh) (c : StoreCall .machine)
    (hupdate : ∀ o m, c = .update o → s.get? o.key = some m → m.hasMarker machineMarker → m.Current o →
      o.hasMarker machineMarker)
    (hstatus : ∀ o m, c = .updateStatus o → s.get? o.key = some m → m.hasMarker machineMarker →
      o.instanceName = m.instanceName)
    {key : Key} {name : String} (h : s.Guards key name) : (s.perform fresh c).2.Guards key name := by
  by_cases hc : c.key? = some key
  · rcases perform_change hs fresh c hc with he | hchange
    · exact guards_of_get?_eq he h
    · obtain ⟨m, hm, hmark, hname⟩ := h
      have hkey : m.key = key := hs key m hm
      rw [hm] at hchange
      generalize hafter : (s.perform fresh c).2.get? key = after at hchange
      cases hchange with
      | updated _ o hv hp =>
        cases hc
        refine ⟨m.updated o, hafter, ?_, ?_⟩
        · rw [Object.hasMarker_updated]
          exact hupdate o m rfl hm hmark hv
        · rw [Object.instanceName_updated hkey.symm]
          exact hname
      | released _ o hv hp =>
        cases hc
        have ho := hupdate o m rfl hm hmark hv
        rw [← Object.hasMarker_updated m, Object.hasMarker_iff] at ho
        simp only [Object.purgeable, Bool.and_eq_true, List.isEmpty_iff] at hp
        rw [hp.2] at ho
        cases ho
      | restated _ o hv =>
        cases hc
        refine ⟨m.statusUpdated o, hafter, hmark, ?_⟩
        rw [Object.instanceName_statusUpdated hkey.symm, hstatus o m rfl hm hmark]
        exact hname
      | marked _ _ _ _ => exact ⟨m.deleted fresh.now, hafter, hmark, hname⟩
      | purged _ _ hf =>
        rw [Object.hasMarker_iff, hf] at hmark
        cases hmark
  · exact guards_of_get?_eq (get?_perform_of_ne hs fresh c hc) h

end Memory

/-! ## The accord -/

/-- The marker of a key and the instance it stands for are its own, and so is what it makes. -/
def guarding : Accord where
  inv s := ∀ key name, s.instances name = some (.made key) → s.store.Guards key name
  spares key s t := (∀ name, s.store.Guards key name → t.store.Guards key name) ∧
    ∀ name, t.instances name = some (.made key) → s.instances name = some (.made key)
  may key c s := ∀ r, c = .backend (.create r) → s.store.Guards key r.name
  spares_refl _ _ := ⟨fun _ h => h, fun _ h => h⟩
  spares_trans h₁ h₂ := ⟨fun name h => h₂.1 name (h₁.1 name h), fun name h => h₁.2 name (h₂.2 name h)⟩

namespace Guarding

/-- A move that spares every key cannot leave an instance unguarded. -/
theorem inv_of_spares {s t : Site} (hs : guarding.inv s) (h : ∀ key, guarding.spares key s t) : guarding.inv t :=
  fun key name hn => (h key).1 name (hs key name ((h key).2 name hn))

theorem owes_of_spares {s t : Site} {key : Key} (hs : guarding.inv s) (h : ∀ key, guarding.spares key s t) :
    (guarding.terms key).owes s t := ⟨inv_of_spares hs h, fun other _ => h other⟩

theorem spares_call {s : Site} {fresh : Fresh} {c : StoreCall .machine}
    (h : ∀ {key name}, s.store.Guards key name → (s.call fresh c).store.Guards key name) (key : Key) :
    guarding.spares key s (s.call fresh c) := ⟨fun _ => h, fun _ hn => hn⟩

theorem spares_take (s : Site) (name : String) (key : Key) : guarding.spares key s (s.take name) := by
  refine ⟨fun _ h => h, fun other h => ?_⟩
  by_cases he : other = name
  · subst he
    simp only [Site.take, Function.update_self] at h
    cases h
  · simpa only [Site.take, Function.update_of_ne he] using h

theorem spares_put (s : Site) (name : String) {o : Origin} {key : Key} (ho : o ≠ .made key) :
    guarding.spares key s (s.put name o) := by
  refine ⟨fun _ h => h, fun other h => ?_⟩
  by_cases he : other = name
  · subst he
    simp only [Site.put, Function.update_self] at h
    exact absurd (Option.some.inj h) ho
  · simpa only [Site.put, Function.update_of_ne he] using h

/-- An instance made for a key that guards its name. -/
theorem owes_make {s : Site} {key : Key} {name : String} (hs : guarding.inv s) (hg : s.store.Guards key name) :
    (guarding.terms key).owes s (s.put name (.made key)) := by
  refine ⟨fun other name' hn => ?_, fun other ho => spares_put s name fun h => ho (Origin.made.inj h).symm⟩
  by_cases he : name' = name
  · subst he
    simp only [Site.put, Function.update_self, Option.some.injEq, Origin.made.injEq] at hn
    exact hn ▸ hg
  · simp only [Site.put, Function.update_of_ne he] at hn
    exact hs other name' hn

/-- The marker goes once the key has nothing left that it made. -/
theorem owes_release {s : Site} {key : Key} {m : Machine} (fresh : Fresh) (hs : guarding.inv s) (hk : m.key = key)
    (hg : s.store.Guards key m.instanceName) (hgone : s.instances m.instanceName ≠ some (.made key)) :
    (guarding.terms key).owes s (s.call fresh (.update (m.removeMarker machineMarker).1)) := by
  have hother : ∀ {other name}, other ≠ key → s.store.Guards other name →
      (s.call fresh (.update (m.removeMarker machineMarker).1)).store.Guards other name := by
    intro other name ho h
    refine Memory.guards_of_get?_eq (Memory.get?_perform_of_ne s.filed fresh _ fun hc => ho ?_) h
    rw [← hk]
    exact (Option.some.inj hc).symm
  refine ⟨fun other name hn => ?_, fun other ho => ⟨fun name h => hother ho h, fun _ hn => hn⟩⟩
  by_cases ho : other = key
  · subst ho
    have := Memory.guards_unique (hs other name hn) hg
    subst this
    exact absurd hn hgone
  · exact hother ho (hs other name hn)

def watch (key : Key) : guarding.Watch key where
  knows m s := m.key = key ∧ s.store.Guards key m.instanceName
  gone m s := s.instances m.instanceName ≠ some (.made key)
  knows_outlasts h hst := ⟨h.1, hst.1 _ h.2⟩
  gone_outlasts h hst hn := h (hst.2 _ hn)
  read {m s} _ hm hmark := ⟨s.filed key m hm, m, hm, hmark, rfl⟩
  seen _ hnone hn := by rw [hnone] at hn; cases hn
  may_store _ _ hr := by cases hr
  may_clock _ hr := by cases hr
  may_backend := by
    rintro m s _ - hs hname r ⟨⟩
    rw [hname r.name rfl]
    exact hs.2
  mark {m s} fresh hs _ := by
    refine owes_of_spares hs
      (spares_call fun h => Memory.guards_perform s.filed fresh _ ?_ (fun _ _ h => by cases h) h)
    rintro _ _ ⟨⟩ _ _ _
    exact Object.hasMarker_addMarker m machineMarker
  restate {m s} fresh o hs h hk hn := by
    refine owes_of_spares hs
      (spares_call fun hg => Memory.guards_perform s.filed fresh _ (fun _ _ h => by cases h) ?_ hg)
    rintro _ current ⟨⟩ hcurrent hmark
    rw [hn]
    exact Memory.guards_unique h.2 ⟨current, by rw [← h.1, ← hk]; exact hcurrent, hmark, rfl⟩
  make hs h := ⟨owes_make hs h.2, h⟩
  unmake {m s} hs h := ⟨owes_of_spares hs (spares_take s m.instanceName), h⟩
  release fresh hs h hgone := owes_release fresh hs h.1 h.2 hgone

theorem kept : guarding.Kept Careful where
  start there := by
    intro key name h
    simp only [Fleet.start] at h
    split at h <;> cases h
  client {s c} fresh hs hc := by
    have h : ∀ key, guarding.spares key s (s.call fresh c) := by
      refine spares_call fun hg => Memory.guards_perform s.filed fresh c ?_ ?_ hg
      · rintro o m rfl hm hmark hv
        exact hc m hm hmark hv
      · rintro o m rfl _ _
        exact hc.elim
    exact ⟨inv_of_spares hs h, h⟩
  appear {s} name hs := by
    have h : ∀ key, guarding.spares key s (s.put name .foreign) := fun key => spares_put s name (by simp)
    exact ⟨inv_of_spares hs h, h⟩
  vanish {s} name hs := ⟨inv_of_spares hs (spares_take s name), spares_take s name⟩
  reconcile key _ := (watch key).keeps_machine

end Guarding

/-! ## No orphans -/

/-- Every instance that a reconcile has made is the instance of a machine that is stored and
carries the marker, the one it was made for; and so is every instance that is about to be made. -/
theorem no_orphan {f : Fleet} (h : Fleet.Reach Careful f) :
    (∀ name key, f.site.instances name = some (.made key) →
      ∃ m, f.site.store.get? key = some m ∧ m.hasMarker machineMarker ∧ m.instanceName = name) ∧
    ∀ key r, f.Issues key (.backend (.create r)) →
      ∃ m, f.site.store.get? key = some m ∧ m.hasMarker machineMarker ∧ m.instanceName = r.name := by
  have hf := Accord.holds Guarding.kept h
  refine ⟨fun name key hn => hf.1 key name hn, fun key r hr => ?_⟩
  exact Accord.may_of_issues hf hr r rfl

/-- A create reports a failure and still has its effect, its reconcile is broken off at once, and
then a client asks for deletion. -/
def strayCreate : Fleet :=
  let key : Key := ⟨"default", "w1"⟩
  let failing : Chance := ⟨⟨"", someTime⟩, .error (.create "w1" "timed out"), true⟩
  (Fleet.start fun _ => false).run
    [.client (.create (newMachine key [])) ⟨"u1", someTime⟩,
      .start key, .proceed key Fleet.lucky, .proceed key Fleet.lucky, .stop key,
      .start key, .proceed key Fleet.lucky, .proceed key Fleet.lucky, .proceed key Fleet.lucky, .proceed key failing,
      .stop key, .client (.delete key) ⟨"", someTime⟩]

theorem no_orphan_strayCreate :
    Fleet.Reach Careful strayCreate ∧ strayCreate.site.instances "w1" = some (.made ⟨"default", "w1"⟩) ∧
      ∃ m, strayCreate.site.store.get? ⟨"default", "w1"⟩ = some m ∧ m.hasMarker machineMarker ∧
        m.instanceName = "w1" := by
  have h : Fleet.Reach Careful strayCreate := .run (.start _)
    ⟨trivial, trivial, trivial, trivial, trivial, trivial, trivial, trivial, trivial, trivial, trivial, trivial,
      trivial⟩
  have hmade : strayCreate.site.instances "w1" = some (.made ⟨"default", "w1"⟩) := by decide
  exact ⟨h, hmade, (no_orphan h).1 "w1" _ hmade⟩

end MachineKeeper
