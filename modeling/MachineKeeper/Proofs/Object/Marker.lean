/-
  MachineKeeper.Proofs.Object.Marker — markers and instance names through writes.

  Collapsing equal neighbours neither loses a marker nor brings one in. So what a write says
  about markers is what it was given, and the instance name of a machine only depends on its
  name and on the instance recorded in its status.
-/

import MachineKeeper.Store.Rules

namespace MachineKeeper

@[simp] theorem mem_collapse {x : String} {fs : List String} : x ∈ collapse fs ↔ x ∈ fs := by
  induction fs using collapse.induct with
  | case1 => rfl
  | case2 => rfl
  | case3 y rest ih =>
    simp only [collapse, if_true, ih, List.mem_cons]
    simp
  | case4 y z rest hne ih => simp only [collapse, hne, if_false, List.mem_cons, ih]

theorem collapse_eq_nil_iff {fs : List String} : collapse fs = [] ↔ fs = [] := by
  simp only [List.eq_nil_iff_forall_not_mem, mem_collapse]

/-- Which markers a list holds, and in which order they come first, does not depend on neighbours
being collapsed, also where only some of the markers are looked at. -/
theorem eraseDups_filter_collapse (p : String → Bool) (fs : List String) :
    ((collapse fs).filter p).eraseDups = (fs.filter p).eraseDups := by
  induction fs using collapse.induct generalizing p with
  | case1 => rfl
  | case2 => rfl
  | case3 y rest ih =>
    simp only [collapse, if_true, ih]
    by_cases hp : p y = true
    · simp [hp, List.eraseDups_cons]
    · simp [hp]
  | case4 y z rest hne ih =>
    simp only [collapse, if_neg hne]
    by_cases hp : p y = true
    · rw [List.filter_cons_of_pos hp, List.filter_cons_of_pos hp, List.eraseDups_cons, List.eraseDups_cons,
        List.filter_filter, List.filter_filter, ih]
    · rw [List.filter_cons_of_neg hp, List.filter_cons_of_neg hp, ih]

/-- A marker that was not there comes last, and the collapse stops before it. -/
theorem collapse_append_of_not_mem {fs : List String} {x : String} (h : x ∉ fs) :
    collapse (fs ++ [x]) = collapse fs ++ [x] := by
  induction fs using collapse.induct with
  | case1 => rfl
  | case2 y =>
    have hne : y ≠ x := fun he => h (by rw [he]; exact List.mem_singleton.mpr rfl)
    simp [collapse, hne]
  | case3 y rest ih =>
    have hrest : x ∉ y :: rest := fun hx => h (List.mem_cons_of_mem y hx)
    simpa [collapse] using ih hrest
  | case4 y z rest hne ih =>
    have hrest : x ∉ z :: rest := fun hx => h (List.mem_cons_of_mem y hx)
    simpa [collapse, hne] using ih hrest

namespace Object

variable {k : Kind}

theorem hasMarker_iff {o : Object k} {marker : String} :
    o.hasMarker marker ↔ marker ∈ o.metadata.finalizers := List.contains_iff_mem

@[simp] theorem hasMarker_updated (current o : Object k) (marker : String) :
    (current.updated o).hasMarker marker = o.hasMarker marker := by
  rw [Bool.eq_iff_iff, hasMarker_iff, hasMarker_iff]
  exact mem_collapse

theorem hasMarker_addMarker (o : Object k) (marker : String) : (o.addMarker marker).1.hasMarker marker := by
  unfold addMarker
  split
  · assumption
  · exact hasMarker_iff.mpr (List.mem_append_right _ (List.mem_singleton.mpr rfl))

/-! ## Instance names -/

theorem instanceName_eq_of {m m' : Machine} (hk : m.key = m'.key)
    (hi : m.status.instanceId = m'.status.instanceId) : m.instanceName = m'.instanceName := by
  have hn : m.metadata.name = m'.metadata.name := congrArg Key.name hk
  simp only [instanceName, hi, hn]

theorem instanceName_updated {current o : Machine} (hk : o.key = current.key) :
    (current.updated o).instanceName = current.instanceName := instanceName_eq_of hk rfl

theorem instanceName_statusUpdated {current o : Machine} (hk : o.key = current.key) :
    (current.statusUpdated o).instanceName = o.instanceName := instanceName_eq_of hk.symm rfl

/-- Recording the instance that a machine stands for leaves it standing for that instance. -/
theorem instanceName_record (m : Machine) (cs : List Condition) :
    Object.instanceName { m with status := ⟨cs, m.instanceName⟩ } = m.instanceName := by
  by_cases h : m.status.instanceId = ""
  · simp [instanceName, h]
  · simp [instanceName, h]

end Object

end MachineKeeper
