/-
  MachineKeeper.Proofs.Store.Duplicates — which markers a stored object may hold twice.

  A list of markers comes into the store with an accepted create or update, and no other call
  touches it. A create keeps the list as it is given. An update collapses equal neighbours, so a
  marker that comes twice with another one in between stays there twice.

  A write is tidy if what is kept of its list holds no marker twice: for a create, if the list
  holds none twice; for an update, if equal markers stand together in it (`Gathered`).

  Proved:
  - `nodup_collapse_iff`: collapsing leaves no duplicates exactly in gathered lists.
  - `finalizers_next`: the list of a stored object is that of the call, or that of before.
  - `duplicate_free_iff`: over a run of calls on an empty store no stored object ever holds a
    marker twice if and only if every accepted write is tidy; in any case its markers come first
    in the order of the list that the last such write was given.
  - `marker_twice`: a create and an update each leave a marker stored twice.
-/

import MachineKeeper.Proofs.Store.Life

namespace MachineKeeper

variable {k : Kind}

/-! ## Gathered lists -/

/-- Equal markers stand together. -/
def Gathered (fs : List String) : Prop := ∀ x y, x ≠ y → ¬[x, y, x].Sublist fs

theorem gathered_nil : Gathered [] := by
  intro x y _ h
  cases h

theorem gathered_cons_self_iff {x : String} {fs : List String} : Gathered (x :: x :: fs) ↔ Gathered (x :: fs) := by
  refine forall_congr' fun a => forall_congr' fun b => imp_congr_right fun hne => not_congr ?_
  constructor
  · intro h
    rcases List.cons_sublist_cons'.mp h with h | ⟨rfl, h⟩
    · exact h
    · -- the second of the two is neither of the others, so it can be left out
      rcases List.cons_sublist_cons'.mp h with h | ⟨rfl, _⟩
      · exact h.cons_cons a
      · exact absurd rfl hne
  · exact fun h => h.cons x

/-- A new marker in front must not come again behind the one that follows it. -/
theorem gathered_cons_iff {x y : String} {fs : List String} (hne : x ≠ y) :
    Gathered (x :: y :: fs) ↔ x ∉ y :: fs ∧ Gathered (y :: fs) := by
  constructor
  · intro h
    refine ⟨fun hx => ?_, fun a b hab hsub => h a b hab (hsub.cons x)⟩
    have hrest : x ∈ fs := (List.mem_cons.mp hx).resolve_left hne
    exact h x y hne (((List.singleton_sublist.mpr hrest).cons_cons y).cons_cons x)
  · rintro ⟨hx, h⟩ a b hab hsub
    rcases List.cons_sublist_cons'.mp hsub with hsub | ⟨hax, hsub⟩
    · exact h a b hab hsub
    · exact hx (hsub.subset (hax ▸ List.mem_cons_of_mem b (List.mem_singleton_self a)))

theorem nodup_collapse_iff {fs : List String} : (collapse fs).Nodup ↔ Gathered fs := by
  induction fs using collapse.induct with
  | case1 => exact iff_of_true List.nodup_nil gathered_nil
  | case2 x =>
    refine iff_of_true (List.nodup_singleton x) fun a b _ h => ?_
    have := h.length_le
    simp at this
  | case3 x rest ih => rw [collapse, if_pos rfl, ih, gathered_cons_self_iff]
  | case4 x y rest hne ih => rw [collapse, if_neg hne, List.nodup_cons, mem_collapse, ih, gathered_cons_iff hne]

theorem eraseDups_collapse (fs : List String) : (collapse fs).eraseDups = fs.eraseDups := by
  have h := eraseDups_filter_collapse (fun _ => true) fs
  simpa using h

/-! ## What a write brings -/

namespace StoreCall

/-- The markers that a write is given. -/
def given? : StoreCall k → Option (List String)
  | .create e | .update e => some e.metadata.finalizers
  | _ => none

/-- What is stored of them. -/
def kept? : StoreCall k → Option (List String)
  | .create e => some e.metadata.finalizers
  | .update e => some (collapse e.metadata.finalizers)
  | _ => none

/-- A write of whose list no marker is kept twice. -/
def Tidy : StoreCall k → Prop
  | .create e => e.metadata.finalizers.Nodup
  | .update e => Gathered e.metadata.finalizers
  | _ => True

theorem tidy_iff {c : StoreCall k} {fs : List String} (h : c.kept? = some fs) : c.Tidy ↔ fs.Nodup := by
  cases c with
  | create e => cases h; exact Iff.rfl
  | update e => cases h; exact nodup_collapse_iff.symm
  | _ => cases h

/-- What is kept comes first in the order in which it is given. -/
theorem given?_of_kept? {c : StoreCall k} {fs : List String} (h : c.kept? = some fs) :
    ∃ given, c.given? = some given ∧ fs.eraseDups = given.eraseDups := by
  cases c with
  | create e => cases h; exact ⟨_, rfl, rfl⟩
  | update e => cases h; exact ⟨_, rfl, eraseDups_collapse _⟩
  | _ => cases h

/-- The markers of the object at the place of a call are those of the call, or those it had. -/
theorem effect_finalizers (c : StoreCall k) (fresh : Fresh) {before : Option (Object k)} {o' : Object k}
    (h : (c.effect fresh before).2 = some o') :
    (c.effect fresh before).1 = true ∧ c.kept? = some o'.metadata.finalizers ∨
      (∃ o, before = some o ∧ o'.metadata.finalizers = o.metadata.finalizers) ∧
        ((c.effect fresh before).1 = true → c.kept? = none) := by
  cases before with
  | none =>
    cases c with
    | create e =>
      left
      cases h
      exact ⟨rfl, rfl⟩
    | _ => cases h
  | some o =>
    cases c with
    | update e =>
      simp only [effect] at h ⊢
      by_cases hv : o.Current e
      · left
        rw [if_pos hv] at h ⊢
        refine ⟨rfl, ?_⟩
        by_cases hp : (o.updated e).purgeable = true
        · rw [if_pos hp] at h
          cases h
        · rw [if_neg hp] at h
          cases h
          rfl
      · right
        rw [if_neg hv] at h ⊢
        cases h
        exact ⟨⟨_, rfl, rfl⟩, fun hc => absurd hc Bool.false_ne_true⟩
    | create e =>
      right
      cases h
      exact ⟨⟨_, rfl, rfl⟩, fun hc => absurd hc Bool.false_ne_true⟩
    | updateStatus e =>
      right
      refine ⟨⟨o, rfl, ?_⟩, fun _ => rfl⟩
      simp only [effect] at h
      split at h <;> cases h <;> rfl
    | delete key =>
      right
      refine ⟨⟨o, rfl, ?_⟩, fun _ => rfl⟩
      simp only [effect] at h
      split at h
      · cases h
      · split at h <;> cases h <;> rfl
    | get key =>
      right
      cases h
      exact ⟨⟨_, rfl, rfl⟩, fun _ => rfl⟩
    | list =>
      right
      cases h
      exact ⟨⟨_, rfl, rfl⟩, fun _ => rfl⟩

/-- An accepted write is tidy if what it leaves at its place has no marker twice. -/
theorem tidy_of_effect {c : StoreCall k} {fresh : Fresh} {before : Option (Object k)}
    (hc : (c.effect fresh before).1 = true)
    (h : ∀ o, (c.effect fresh before).2 = some o → o.metadata.finalizers.Nodup) : c.Tidy := by
  cases c with
  | create e =>
    cases before with
    | none => exact h (e.created fresh) rfl
    | some o => cases hc
  | update e =>
    cases before with
    | none => cases hc
    | some o =>
      simp only [effect] at hc h
      by_cases hv : o.Current e
      · rw [if_pos hv] at h
        refine nodup_collapse_iff.mp ?_
        by_cases hp : (o.updated e).purgeable = true
        · -- nothing is stored, and there was no marker to keep
          have hnone : collapse e.metadata.finalizers = [] := ((Rehearsal.Shelf.purgeable_iff _).mp hp).2
          rw [hnone]
          exact List.nodup_nil
        · rw [if_neg hp] at h
          exact h (o.updated e) rfl
      · rw [if_neg hv] at hc
        cases hc
  | _ => trivial

end StoreCall

namespace Rehearsal.Shelf

variable {s : Shelf} {objects : (k : Kind) → Memory k} {key : Key}

/-- An accepted write whose list is stored under the key from then on, unless nothing is. -/
def Brings (k : Kind) (key : Key) (s : Shelf) (c : Call) (fs : List String) : Prop :=
  c.on k key ∧ s.accepts c ∧ c.call.kept? = some fs

theorem not_brings {c : Call} (hon : c.on k key = false) (fs : List String) : ¬Brings k key s c fs := by
  rintro ⟨hon', -⟩
  exact Bool.false_ne_true (hon.symm.trans hon')

/-- The markers of a stored object are those of the call, or those it had. -/
theorem finalizers_next (h : s.Holds objects) (c : Call) {o' : Object k} (ho' : (s.next c).stored k key = some o') :
    Brings k key s c o'.metadata.finalizers ∨
      (∃ o, s.stored k key = some o ∧ o'.metadata.finalizers = o.metadata.finalizers) ∧
        ∀ fs, ¬Brings k key s c fs := by
  cases hon : c.on k key with
  | false =>
    rw [h.stored_of_not_on hon] at ho'
    exact .inr ⟨⟨o', ho', rfl⟩, not_brings hon⟩
  | true =>
    obtain ⟨call, fresh, rfl, hkey⟩ := Call.eq_of_on hon
    obtain ⟨haccepts, hstored⟩ := Prod.mk.inj (h.effect call fresh hkey)
    rcases call.effect_finalizers fresh (hstored.symm.trans ho') with ⟨hc, hkept⟩ | ⟨hsame, hnone⟩
    · exact .inl ⟨hon, haccepts.trans hc, hkept⟩
    · refine .inr ⟨hsame, ?_⟩
      rintro fs ⟨-, hc, hkept⟩
      have := hnone (haccepts.symm.trans hc)
      exact nomatch hkept.symm.trans this

/-- An accepted write is tidy if no marker stands twice in what is stored after it. -/
theorem tidy_of_accepts (h : s.Holds objects) {c : Call} (hc : s.accepts c)
    (hnodup : ∀ k key (o : Object k), (s.next c).stored k key = some o → o.metadata.finalizers.Nodup) :
    c.call.Tidy := by
  obtain ⟨kind, call, fresh⟩ := c
  cases hkey : call.key? with
  | none =>
    cases call with
    | list => trivial
    | _ => cases hkey
  | some key =>
    obtain ⟨haccepts, hstored⟩ := Prod.mk.inj (h.effect call fresh hkey)
    refine StoreCall.tidy_of_effect (haccepts.symm.trans hc) fun o ho => ?_
    exact hnodup kind key o (hstored.trans ho)

/-- The list goes back to the last accepted write that brought one, and has its markers in the
order that this was given. -/
def Brought (k : Kind) (key : Key) (s : Shelf) (calls : List Call) (fs : List String) : Prop :=
  ∃ before c later given, calls = before ++ c :: later ∧ Brings k key (s.after before) c fs ∧
    c.call.given? = some given ∧ fs.eraseDups = given.eraseDups ∧
    ∀ part c' rest, later = part ++ c' :: rest → ∀ fs', ¬Brings k key (s.after (before ++ c :: part)) c' fs'

theorem brought_of_brings {calls : List Call} {c : Call} {fs : List String} (h : Brings k key (s.after calls) c fs) :
    Brought k key s (calls ++ [c]) fs := by
  obtain ⟨given, hgiven, horder⟩ := StoreCall.given?_of_kept? h.2.2
  refine ⟨calls, c, [], given, rfl, h, hgiven, horder, fun part c' rest hnil => ?_⟩
  simp at hnil

theorem Brought.snoc {calls : List Call} {c : Call} {fs : List String} (h : Brought k key s calls fs)
    (hc : ∀ fs', ¬Brings k key (s.after calls) c fs') : Brought k key s (calls ++ [c]) fs := by
  obtain ⟨before, d, later, given, rfl, hd, hgiven, horder, hlast⟩ := h
  refine ⟨before, d, later ++ [c], given, by simp, hd, hgiven, horder, fun part c' rest hsplit => ?_⟩
  rcases List.eq_nil_or_concat rest with rfl | ⟨rest, e, rfl⟩
  · obtain ⟨rfl, he⟩ := List.append_inj' hsplit rfl
    cases he
    exact hc
  · have hlater : later = part ++ c' :: rest := by
      rw [List.concat_eq_append, ← List.cons_append, ← List.append_assoc] at hsplit
      exact (List.append_inj' hsplit rfl).1
    exact hlast part c' rest hlater

theorem brought_after (hs : s.Holds objects) (hempty : ∀ k key, s.stored k key = none) (calls : List Call)
    {o : Object k} (ho : (s.after calls).stored k key = some o) : Brought k key s calls o.metadata.finalizers := by
  induction calls using List.reverseRecOn generalizing o with
  | nil =>
    rw [after_nil, hempty] at ho
    cases ho
  | append_singleton calls c ih =>
    rw [after_append] at ho
    rcases finalizers_next (hs.after calls) c ho with hbrings | ⟨⟨o', ho', hsame⟩, hnone⟩
    · exact brought_of_brings hbrings
    · rw [hsame]
      exact (ih ho').snoc hnone

/-- Whatever calls an empty store gets: no object ever holds a marker twice if and only if every
accepted create was given a list that does not, and every accepted update one in which equal
markers stand together. The markers of an object always come first in the order of the list
that the last such write was given. -/
theorem duplicate_free_iff {s : Shelf} (hs : s ∈ [emptyMemory, emptyTable]) (calls : List Call) :
    ((∀ before, before <+: calls → ∀ k key (o : Object k), (s.after before).stored k key = some o →
        o.metadata.finalizers.Nodup) ↔
      ∀ before c later, calls = before ++ c :: later → (s.after before).accepts c → c.call.Tidy) ∧
    ∀ before, before <+: calls → ∀ k key (o : Object k), (s.after before).stored k key = some o →
      Brought k key s before o.metadata.finalizers := by
  have hholds := holds_empty hs
  have hbrought : ∀ before k key (o : Object k), (s.after before).stored k key = some o →
      Brought k key s before o.metadata.finalizers := by
    intro before k key o ho
    exact brought_after hholds (fun k key => hholds.stored k key) before ho
  refine ⟨⟨?_, ?_⟩, fun before _ k key o ho => hbrought before k key o ho⟩
  · rintro hnodup before c later rfl hc
    refine tidy_of_accepts (hholds.after before) hc fun k key o ho => ?_
    refine hnodup (before ++ [c]) ⟨later, by simp⟩ k key o ?_
    rwa [after_append]
  · intro htidy before hbefore k key o ho
    obtain ⟨part, c, later, -, rfl, ⟨-, hc, hkept⟩, -⟩ := hbrought before k key o ho
    obtain ⟨rest, rfl⟩ := hbefore
    exact (StoreCall.tidy_iff hkept).mp (htidy part c (later ++ rest) (by simp) hc)

/-- A machine that is created without markers, and is then given one of them twice over. -/
def twiceOver : List Call :=
  let m := newMachine ⟨"default", "w1"⟩ []
  [⟨.machine, .create m, ⟨"u1", someTime⟩⟩,
    ⟨.machine, .update { m with
      metadata.resourceVersion := 1
      metadata.finalizers := ["backup", "backup", "audit"] }, ⟨"u2", someTime⟩⟩]

theorem duplicate_free_iff_twiceOver :
    ∃ o : Machine, (emptyTable.after twiceOver).stored .machine ⟨"default", "w1"⟩ = some o ∧
      o.metadata.finalizers.Nodup ∧
      Brought .machine ⟨"default", "w1"⟩ emptyTable twiceOver o.metadata.finalizers := by
  obtain ⟨hiff, hbrought⟩ := duplicate_free_iff (s := emptyTable) (by simp) twiceOver
  have htidy : ∀ before c later, twiceOver = before ++ c :: later → (emptyTable.after before).accepts c →
      c.call.Tidy := by
    intro before c later hsplit _
    have hmem : c ∈ twiceOver := by rw [hsplit]; simp
    rcases List.mem_cons.mp hmem with rfl | hmem
    · exact List.nodup_nil
    · obtain rfl := List.mem_singleton.mp hmem
      exact nodup_collapse_iff.mp (by decide)
  have hstored : ((emptyTable.after twiceOver).stored .machine ⟨"default", "w1"⟩).isSome := by
    rw [(holds_emptyTable.after twiceOver).stored]
    decide
  obtain ⟨o, ho⟩ := Option.isSome_iff_exists.mp hstored
  exact ⟨o, ho, hiff.mpr htidy twiceOver List.prefix_rfl .machine _ o ho,
    hbrought twiceOver List.prefix_rfl .machine _ o ho⟩

/-- A create keeps a marker that it is given twice, and an update one that comes again later. -/
theorem marker_twice :
    let m := newMachine ⟨"default", "w1"⟩ ["a", "a"]
    let e : Machine := { m with metadata.resourceVersion := 1, metadata.finalizers := ["a", "b", "a"] }
    let created : Call := ⟨.machine, .create m, ⟨"u1", someTime⟩⟩
    let updated : Call := ⟨.machine, .update e, ⟨"u2", someTime⟩⟩
    ∀ s ∈ [emptyMemory, emptyTable],
      ((s.after [created]).stored .machine m.key).map (·.metadata.finalizers) = some ["a", "a"] ∧
      ((s.after [created, updated]).stored .machine m.key).map (·.metadata.finalizers) = some ["a", "b", "a"] := by
  intro m e created updated s hs
  have hholds := holds_empty hs
  rw [(hholds.after _).stored, (hholds.after _).stored]
  exact ⟨rfl, rfl⟩

end Rehearsal.Shelf

end MachineKeeper
