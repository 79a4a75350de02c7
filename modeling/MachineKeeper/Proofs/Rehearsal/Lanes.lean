/-
  MachineKeeper.Proofs.Rehearsal.Lanes — what one call in a lane does to a world.

  A call in a lane is answered from what is in the lane: the machine stored under its key, the
  instance of its name and the faults of the backend. It changes nothing else, whoever else makes
  calls (`Spares`). So two worlds that are the same in the lane, up to times (`Matched`), answer
  the calls of twins alike, and are the same in the lane afterwards.

  Proved:
  - `Matched.of_spares`: calls in other lanes leave a lane as it is.
  - `step_of_twins`: one call of twins, in two worlds that match.
-/

import MachineKeeper.Proofs.Rehearsal.Twins

namespace MachineKeeper

/-! ## The simulated backend -/

namespace Simulated

variable {s s' : Simulated} {name other : String} {c : BackendCall}

/-- The backend has taken the call, and the session is open. -/
def taking (c : BackendCall) (s : Simulated) : Simulated := { s with calls := s.calls ++ [c], connected := true }

/-- Unless it cannot be reached, a create is what is left of the call then. -/
theorem perform_create (h : s.faults.connect = false) (r : InstanceRequest) :
    s.perform none (.create r) = (s.taking (.create r)).create r := by
  simp [perform, check, h, taking]

theorem perform_delete (h : s.faults.connect = false) (name : String) :
    s.perform none (.delete name) = (s.taking (.delete name)).delete name := by
  simp [perform, check, h, taking]

theorem create_alike {r : InstanceRequest} (hfaults : s.faults = s'.faults)
    (hthere : s.instances.get? r.name = s'.instances.get? r.name) :
    (s.create r).1 = (s'.create r).1 ∧
      (s.create r).2.instances.get? r.name = (s'.create r).2.instances.get? r.name := by
  have hcontains : s.contains r.name = s'.contains r.name := by
    simp only [contains, Catalog.contains, hthere]
  simp only [create, hfaults, hcontains]
  split
  · refine ⟨rfl, ?_⟩
    split
    · simp [Catalog.get?_insert]
    · exact hthere
  · split
    · exact ⟨rfl, hthere⟩
    · split
      · exact ⟨rfl, hthere⟩
      · simp [Catalog.get?_insert]

theorem delete_alike (hfaults : s.faults = s'.faults) (hthere : s.instances.get? name = s'.instances.get? name) :
    (s.delete name).1 = (s'.delete name).1 ∧
      (s.delete name).2.instances.get? name = (s'.delete name).2.instances.get? name := by
  have hcontains : s.contains name = s'.contains name := by
    simp only [contains, Catalog.contains, hthere]
  simp only [delete, hfaults, hcontains]
  split
  · refine ⟨rfl, ?_⟩
    split
    · simp [Catalog.get?_erase]
    · exact hthere
  · split
    · simp [Catalog.get?_erase]
    · exact ⟨rfl, hthere⟩

theorem get?_create_of_ne {r : InstanceRequest} (hne : r.name ≠ other) (s : Simulated) :
    (s.create r).2.instances.get? other = s.instances.get? other := by
  have hplaced : (s.instances.insert r.name r).get? other = s.instances.get? other := by
    rw [Catalog.get?_insert, if_neg hne]
  simp only [create]
  split
  · split
    · exact hplaced
    · rfl
  · split
    · rfl
    · split
      · rfl
      · exact hplaced

theorem get?_delete_of_ne (hne : name ≠ other) (s : Simulated) :
    (s.delete name).2.instances.get? other = s.instances.get? other := by
  have hremoved : (s.instances.erase name).get? other = s.instances.get? other := by
    rw [Catalog.get?_erase, if_neg hne]
  simp only [delete]
  split
  · split
    · exact hremoved
    · rfl
  · split
    · exact hremoved
    · rfl

/-- A call about one instance is answered from the faults and from whether that instance is there. -/
theorem perform_alike (hfaults : s.faults = s'.faults) (hthere : s.instances.get? name = s'.instances.get? name)
    (hc : ∀ x ∈ c.name?, x = name) :
    (s.perform none c).1 = (s'.perform none c).1 ∧
      (s.perform none c).2.instances.get? name = (s'.perform none c).2.instances.get? name := by
  cases hconnect : s'.faults.connect with
  | true =>
    cases c with
    | close => exact ⟨rfl, hthere⟩
    | connect | create | delete | exist => simp [perform, check, hfaults, hconnect, hthere]
  | false =>
    have hconnect' : s.faults.connect = false := hfaults ▸ hconnect
    cases c with
    | close => exact ⟨rfl, hthere⟩
    | connect => simp [perform, check, hconnect, hconnect', hthere]
    | exist x =>
      obtain rfl : x = name := hc x rfl
      simp [perform, check, exist, contains, Catalog.contains, hfaults, hconnect, hthere]
    | create r =>
      obtain rfl : r.name = name := hc r.name rfl
      rw [perform_create hconnect, perform_create hconnect']
      exact create_alike hfaults hthere
    | delete x =>
      obtain rfl : x = name := hc x rfl
      rw [perform_delete hconnect, perform_delete hconnect']
      exact delete_alike hfaults hthere

/-- It leaves all other instances as they are. -/
theorem get?_perform_of_ne (hc : ∀ x ∈ c.name?, x ≠ other) (s : Simulated) :
    (s.perform none c).2.instances.get? other = s.instances.get? other := by
  cases hconnect : s.faults.connect with
  | true => cases c <;> simp [perform, check, hconnect]
  | false =>
    cases c with
    | connect | exist | close => simp [perform, check, hconnect]
    | create r =>
      rw [perform_create hconnect]
      exact get?_create_of_ne (hc r.name rfl) _
    | delete x =>
      rw [perform_delete hconnect]
      exact get?_delete_of_ne (hc x rfl) _

theorem perform_faults (c : BackendCall) (s : Simulated) : (s.perform none c).2.faults = s.faults := by
  cases hconnect : s.faults.connect with
  | true => cases c <;> simp [perform, check, hconnect]
  | false =>
    cases c with
    | connect | exist | close => simp [perform, check, hconnect]
    | create r =>
      rw [perform_create hconnect]
      simp only [create]
      repeat' split
      all_goals rfl
    | delete x =>
      rw [perform_delete hconnect]
      simp only [delete]
      repeat' split
      all_goals rfl

end Simulated

/-! ## Writes of machines that are the same up to times -/

namespace Memory

open Rehearsal (Answered Lane)

variable {s s' : Memory .machine} {key : Key} {o o' : Machine}

theorem update_alike (hk : o.key = key) (hs : (s.get? key).map Object.timeless = (s'.get? key).map Object.timeless)
    (ho : Alike o o') :
    Answered (s.update o).1 (s'.update o').1 ∧
      ((s.update o).2.get? key).map Object.timeless = ((s'.update o').2.get? key).map Object.timeless := by
  rw [update_eq, update_eq, ← ho.key, hk]
  rcases Alike.cases_of_map_eq hs with ⟨hm, hm'⟩ | ⟨m, m', hm, hm', halike⟩
  · rw [hm, hm']
    exact ⟨.error _, hs⟩
  · rw [hm, hm']
    by_cases hv : m.Current o
    · simp only [if_pos hv, if_pos ((halike.current_iff ho).mp hv), (halike.updated ho).purgeable]
      refine ⟨.ok _ _, ?_⟩
      split
      · simp [Catalog.get?_erase]
      · simp only [Catalog.get?_insert, if_true, Option.map_some]
        exact congrArg some (halike.updated ho)
    · have hv' : ¬m'.Current o' := fun h => hv ((halike.current_iff ho).mpr h)
      simp only [if_neg hv, if_neg hv', halike.key, halike.metadata, ho.metadata]
      exact ⟨.error _, hs⟩

theorem updateStatus_alike (hk : o.key = key) (hs : (s.get? key).map Object.timeless = (s'.get? key).map Object.timeless)
    (ho : Alike o o') :
    Answered (s.updateStatus o).1 (s'.updateStatus o').1 ∧
      ((s.updateStatus o).2.get? key).map Object.timeless = ((s'.updateStatus o').2.get? key).map Object.timeless := by
  rw [updateStatus_eq, updateStatus_eq, ← ho.key, hk]
  rcases Alike.cases_of_map_eq hs with ⟨hm, hm'⟩ | ⟨m, m', hm, hm', halike⟩
  · rw [hm, hm']
    exact ⟨.error _, hs⟩
  · rw [hm, hm']
    by_cases hv : m.Current o
    · simp only [if_pos hv, if_pos ((halike.current_iff ho).mp hv)]
      refine ⟨.ok _ _, ?_⟩
      simp only [Catalog.get?_insert, if_true, Option.map_some]
      exact congrArg some (halike.statusUpdated ho)
    · have hv' : ¬m'.Current o' := fun h => hv ((halike.current_iff ho).mpr h)
      simp only [if_neg hv, if_neg hv', halike.key, halike.metadata, ho.metadata]
      exact ⟨.error _, hs⟩

/-- What is written in a lane belongs there. -/
theorem keeps_perform {L : Lane} (hs : s.Filed) (fresh : Fresh) {c : StoreCall .machine} (hc : c.key? = some L.key)
    (hcreate : ∀ e, c ≠ .create e) (hstatus : ∀ o, c = .updateStatus o → o.instanceName = L.name)
    (h : L.Keeps (s.get? L.key)) : L.Keeps ((s.perform fresh c).2.get? L.key) := by
  intro m' hm'
  refine ⟨perform_filed hs fresh c _ _ hm', ?_⟩
  rcases perform_change hs fresh c hc with he | hchange
  · rw [he] at hm'
    exact (h m' hm').2
  · rw [hm'] at hchange
    generalize hbefore : s.get? L.key = before at hchange h
    cases hchange with
    | created o => exact absurd rfl (hcreate o)
    | updated current o _ _ =>
      have hkey : o.key = current.key := (Option.some.inj hc).trans (h current rfl).1.symm
      rw [Object.instanceName_updated hkey]
      exact (h current rfl).2
    | restated current o _ =>
      have hkey : o.key = current.key := (Option.some.inj hc).trans (h current rfl).1.symm
      rw [Object.instanceName_statusUpdated hkey]
      exact hstatus o rfl
    | marked _ current _ _ => exact (h current rfl).2

end Memory

namespace Rehearsal

/-! ## Worlds -/

/-- What a call in the lane leaves as it is: the clock, the faults, and everything in other lanes. -/
structure Spares (L : Lane) (w w' : World) : Prop where
  quiet : Quiet w'
  now : w'.now = w.now
  signals : w'.signals = w.signals
  faults : w'.simulated.faults = w.simulated.faults
  machines : ∀ key, key ≠ L.key → w'.shelf.stored .machine key = w.shelf.stored .machine key
  clusters : ∀ key, w'.shelf.stored .cluster key = w.shelf.stored .cluster key
  instances : ∀ name, name ≠ L.name → w'.simulated.instances.get? name = w.simulated.instances.get? name

theorem Spares.refl {L : Lane} {w : World} (h : Quiet w) : Spares L w w :=
  ⟨h, rfl, rfl, rfl, fun _ _ => rfl, fun _ => rfl, fun _ _ => rfl⟩

theorem Spares.trans {L : Lane} {u v w : World} (h : Spares L u v) (h' : Spares L v w) : Spares L u w where
  quiet := h'.quiet
  now := h'.now.trans h.now
  signals := h'.signals.trans h.signals
  faults := h'.faults.trans h.faults
  machines key hne := (h'.machines key hne).trans (h.machines key hne)
  clusters key := (h'.clusters key).trans (h.clusters key)
  instances name hne := (h'.instances name hne).trans (h.instances name hne)

/-- The same in the lane, up to times, and the same faults. -/
structure Matched (L : Lane) (w v : World) : Prop where
  quiet : Quiet w
  quiet' : Quiet v
  faults : w.simulated.faults = v.simulated.faults
  stored : (w.shelf.stored .machine L.key).map Object.timeless = (v.shelf.stored .machine L.key).map Object.timeless
  keeps : L.Keeps (w.shelf.stored .machine L.key)
  there : w.simulated.instances.get? L.name = v.simulated.instances.get? L.name

variable {L L' : Lane} {w w' v : World}

theorem Matched.of_spares (h : Matched L w v) (hs : Spares L' w w') (hkey : L.key ≠ L'.key) (hname : L.name ≠ L'.name) :
    Matched L w' v where
  quiet := hs.quiet
  quiet' := h.quiet'
  faults := hs.faults.trans h.faults
  stored := by
    rw [hs.machines L.key hkey]
    exact h.stored
  keeps := by
    rw [hs.machines L.key hkey]
    exact h.keeps
  there := (hs.instances L.name hname).trans h.there

/-! ## Calls in a lane -/

/-- A store call in the lane is answered as by the machines alone. -/
theorem perform_in_lane (h : Quiet w) {c : StoreCall .machine} (hc : c.key? = some L.key) (hcreate : ∀ e, c ≠ .create e) :
    ∃ (s : Memory .machine) (w' : World), s.Filed ∧ w.shelf.stored .machine L.key = s.get? L.key ∧
      w.perform (.store .machine c) = (.atOnce (s.perform w.fresh c).1, w') ∧
      w'.shelf.stored .machine L.key = (s.perform w.fresh c).2.get? L.key ∧ w'.simulated = w.simulated ∧
      Spares L w w' := by
  obtain ⟨objects, hholds⟩ := h.holds
  obtain ⟨hanswer, hnext⟩ := hholds.perform ⟨.machine, c, w.fresh⟩
  refine ⟨objects .machine, { w with shelf := w.shelf.next ⟨.machine, c, w.fresh⟩ }, hholds.filed _,
    hholds.stored _ _, ?_, ?_, rfl, ?_⟩
  · rw [h.perform_store hcreate, hanswer]
  · show (w.shelf.next _).stored .machine L.key = _
    rw [hnext.stored, Shelf.step, Function.update_self]
  · refine ⟨{ h with holds := ⟨_, hnext⟩ }, rfl, rfl, rfl, fun key hne => ?_, fun key => ?_, fun _ _ => rfl⟩
    · refine hholds.stored_of_not_on ?_
      simp [Shelf.Call.on, hc, Ne.symm hne]
    · refine hholds.stored_of_not_on ?_
      simp [Shelf.Call.on]

/-- A backend call about the instance of the lane, under a context that is not done. -/
theorem perform_simulated (h : Quiet w) {ctx : Context} (hctx : w.interruption ctx = none) {c : BackendCall}
    (hc : ∀ name ∈ c.name?, name = L.name) :
    ∃ w' : World, w.perform (.simulated ctx c) = (.atOnce (w.simulated.perform none c).1, w') ∧
      w'.shelf = w.shelf ∧ w'.simulated = (w.simulated.perform none c).2 ∧ Spares L w w' := by
  refine ⟨{ w with simulated := (w.simulated.perform none c).2, log := w.log ++ [.backend c] }, ?_, rfl, rfl, ?_⟩
  · simp only [World.perform, hctx]
    rfl
  · refine ⟨{ h with }, rfl, rfl, Simulated.perform_faults c w.simulated, fun _ _ => rfl, fun _ => rfl, ?_⟩
    intro name hne
    refine Simulated.get?_perform_of_ne (fun x hx => ?_) w.simulated
    rw [hc x hx]
    exact Ne.symm hne

/-- Worlds that matched, after a store call in the lane in each of them. -/
theorem Matched.of_store {v' : World} (h : Matched L w v) (hs : Spares L w w') (hs' : Spares L v v')
    (hsimulated : w'.simulated = w.simulated) (hsimulated' : v'.simulated = v.simulated)
    (hstored : (w'.shelf.stored .machine L.key).map Object.timeless = (v'.shelf.stored .machine L.key).map Object.timeless)
    (hkeeps : L.Keeps (w'.shelf.stored .machine L.key)) : Matched L w' v' where
  quiet := hs.quiet
  quiet' := hs'.quiet
  faults := by rw [hsimulated, hsimulated', h.faults]
  stored := hstored
  keeps := hkeeps
  there := by rw [hsimulated, hsimulated', h.there]

/-- A write in the lane, where the machines alone answer alike. -/
theorem write_of_twins {α : Type} {timeout : Nat} (hm : Matched L w v) (c c' : StoreCall .machine)
    (hc : c.key? = some L.key) (hc' : c'.key? = some L.key) (hcreate : ∀ e, c ≠ .create e) (hcreate' : ∀ e, c' ≠ .create e)
    (hstatus : ∀ o, c = .updateStatus o → o.instanceName = L.name) {n : c.Answer → Act α} {n' : c'.Answer → Act α}
    (halike : ∀ (s s' : Memory .machine) (fresh fresh' : Fresh),
      (s.get? L.key).map Object.timeless = (s'.get? L.key).map Object.timeless →
      ((s.perform fresh c).2.get? L.key).map Object.timeless = ((s'.perform fresh' c').2.get? L.key).map Object.timeless ∧
        (L.Keeps (s.get? L.key) → Twins timeout L (n (s.perform fresh c).1) (n' (s'.perform fresh' c').1))) :
    ∃ a a' w' v', w.perform (.store .machine c) = (.atOnce a, w') ∧ v.perform (.store .machine c') = (.atOnce a', v') ∧
      Twins timeout L (n a) (n' a') ∧ Matched L w' v' ∧ Spares L w w' ∧ Spares L v v' := by
  obtain ⟨s, w', hfiled, hs, hperform, hw', hsimulated, hspares⟩ := perform_in_lane hm.quiet hc hcreate
  obtain ⟨s', v', _, hs', hperform', hv', hsimulated', hspares'⟩ := perform_in_lane hm.quiet' hc' hcreate'
  have hstored := hm.stored
  have hkeeps := hm.keeps
  rw [hs] at hstored hkeeps
  rw [hs'] at hstored
  obtain ⟨hafter, htwins⟩ := halike s s' w.fresh v.fresh hstored
  refine ⟨_, _, w', v', hperform, hperform', htwins hkeeps, ?_, hspares, hspares'⟩
  refine hm.of_store hspares hspares' hsimulated hsimulated' ?_ ?_
  · rw [hw', hv']
    exact hafter
  · rw [hw']
    exact Memory.keeps_perform hfiled w.fresh hc hcreate hstatus hkeeps

/-- One call of twins, in worlds that match: it is answered at once in both, and they match afterwards. -/
theorem step_of_twins {α : Type} {timeout : Nat} {start : World} {c : World.Call} {n : c.Answer → Act α} {q : Act α}
    (h : Twins timeout L (.call c n) q) (hm : Matched L w v) (hw : InTime timeout start w c) :
    ∃ c' n', q = .call c' n' ∧ (InTime timeout start v c' → ∃ a a' w' v', w.perform c = (.atOnce a, w') ∧
      v.perform c' = (.atOnce a', v') ∧ Twins timeout L (n a) (n' a') ∧ Matched L w' v' ∧ Spares L w w' ∧
      Spares L v v') := by
  cases h with
  | @clock n n' hn =>
    refine ⟨.clock, n', rfl, fun hv => ⟨w.now, v.now, w, v, rfl, rfl, hn _ _ ?_, hm, .refl hm.quiet, .refl hm.quiet'⟩⟩
    exact Iff.trans hw (Iff.symm hv)
  | @wallClock n n' hn =>
    exact ⟨.wallClock, n', rfl, fun _ => ⟨w.wall, v.wall, w, v, rfl, rfl, hn _ _, hm, .refl hm.quiet, .refl hm.quiet'⟩⟩
  | @interruption ctx ctx' n n' hn =>
    refine ⟨.interruption ctx', n', rfl, fun hv => ⟨none, none, w, v, ?_, ?_, hn, hm, .refl hm.quiet, .refl hm.quiet'⟩⟩
    · rw [World.perform, show w.interruption ctx = none from hw]
    · rw [World.perform, show v.interruption ctx' = none from hv]
  | @simulated ctx ctx' c n n' hc hn =>
    refine ⟨.simulated ctx' c, n', rfl, fun hv => ?_⟩
    obtain ⟨w', hperform, hshelf, hsimulated, hspares⟩ := perform_simulated hm.quiet hw hc
    obtain ⟨v', hperform', hshelf', hsimulated', hspares'⟩ := perform_simulated hm.quiet' hv hc
    obtain ⟨hanswer, hthere⟩ := Simulated.perform_alike hm.faults hm.there hc
    refine ⟨_, _, w', v', hperform, hperform', ?_, ?_, hspares, hspares'⟩
    · rw [hanswer]
      exact hn _
    · refine ⟨hspares.quiet, hspares'.quiet, ?_, ?_, ?_, ?_⟩
      · rw [hspares.faults, hspares'.faults, hm.faults]
      · rw [hshelf, hshelf']
        exact hm.stored
      · rw [hshelf]
        exact hm.keeps
      · rw [hsimulated, hsimulated']
        exact hthere
  | @get n n' hn =>
    refine ⟨.store .machine (.get L.key), n', rfl, fun _ => ?_⟩
    refine write_of_twins hm (.get L.key) (.get L.key) rfl rfl (fun _ h => by cases h) (fun _ h => by cases h)
      (fun _ h => by cases h) fun s s' fresh fresh' hstored => ⟨hstored, fun hkeeps => ?_⟩
    exact hn _ _ hstored hkeeps
  | @update o o' n n' hk ho hn =>
    have hk' : o'.key = L.key := ho.key.symm.trans hk
    refine ⟨.store .machine (.update o'), n', rfl, fun _ => ?_⟩
    refine write_of_twins hm (.update o) (.update o') (congrArg some hk) (congrArg some hk')
      (fun _ h => by cases h) (fun _ h => by cases h) (fun _ h => by cases h) fun s s' fresh fresh' hstored => ?_
    have h := Memory.update_alike hk hstored ho
    exact ⟨h.2, fun _ => hn _ _ h.1⟩
  | @updateStatus o o' n n' hk hname ho hn =>
    have hk' : o'.key = L.key := ho.key.symm.trans hk
    refine ⟨.store .machine (.updateStatus o'), n', rfl, fun _ => ?_⟩
    refine write_of_twins hm (.updateStatus o) (.updateStatus o') (congrArg some hk) (congrArg some hk')
      (fun _ h => by cases h) (fun _ h => by cases h) ?_ fun s s' fresh fresh' hstored => ?_
    · intro e he
      cases he
      exact hname
    · have h := Memory.updateStatus_alike hk hstored ho
      exact ⟨h.2, fun _ => hn _ _ h.1⟩

end Rehearsal

end MachineKeeper
