/-
  MachineKeeper.Proofs.Daemon.Addressing — which instance a request is about.

  A name comes from a user and may be any text. It gets into a path, or into the body that asks for
  a new instance, only if it is a label, and then it is one segment of that path and nothing in it
  can end the segment (`IsLabel.plain`, `OfInstance.unique`).

  What may be asked for on behalf of an instance is said without a look at the plans (`Intended`).
  It holds of all that a call asks for but for one thing: the wait for an operation with a `#` in
  its name is cut off there, and what is left may be the path of another instance
  (`create_asks_for_another`).

  Proved:
  - `validName_iff`: which names are taken.
  - `keepsTo_create`, `keepsTo_delete`, `keepsTo_exist`: what is asked for in a session.
  - `keepsTo_plan`: every call, with its handshake.
-/

import MachineKeeper.Proofs.Daemon.Look
import MachineKeeper.Proofs.Daemon.Operations

namespace MachineKeeper

/-- The call concerns no instance but that one. -/
def BackendCall.Concerns (name : String) : BackendCall → Prop
  | .connect | .close => True
  | .create r => r.name = name
  | .delete name' | .exist name' => name' = name

namespace Daemon

/-! ## Names in paths -/

/-- Letters and digits are those of ASCII. -/
structure IsLabel (name : String) : Prop where
  bytes : 1 ≤ Text.byteCount name.toList ∧ Text.byteCount name.toList ≤ 63
  chars : ∀ c ∈ name.toList, c.isAlphanum ∨ c = '-'
  first : name.toList.head? ≠ some '-'
  last : name.toList.getLast? ≠ some '-'
  notDigits : ∃ c ∈ name.toList, ¬c.isDigit

/-- The path of an instance, or of its state. -/
def OfInstance (name path : String) : Prop :=
  path = "/1.0/instances/" ++ name ∨ path = "/1.0/instances/" ++ name ++ "/state"

/-- The segment of a path that would be the name of an instance. -/
def instanceOf (path : String) : List Char := (path.toList.drop "/1.0/instances/".length).takeWhile (· ≠ '/')

section

variable {name name' path : String}

theorem one_le_byteCount_iff {cs : List Char} : 1 ≤ Text.byteCount cs ↔ cs ≠ [] := by
  cases cs with
  | nil => simp [Text.byteCount]
  | cons c cs =>
    have hc := c.utf8Size_pos
    simp only [Text.byteCount, ne_eq, reduceCtorEq, not_false_eq_true, iff_true]
    omega

theorem validName_iff : validName name = true ↔ IsLabel name := by
  unfold validName isLabelChar
  simp only [Bool.and_eq_true, decide_eq_true_eq, List.all_eq_true, Bool.or_eq_true, beq_iff_eq, Bool.not_eq_true',
    List.all_eq_false]
  constructor
  · rintro ⟨⟨⟨⟨⟨hsome, hbytes⟩, hchars⟩, hfirst⟩, hlast⟩, hdigits⟩
    exact ⟨⟨one_le_byteCount_iff.mpr hsome, hbytes⟩, hchars, hfirst, hlast, hdigits⟩
  · intro h
    obtain ⟨⟨hsome, hbytes⟩, hchars, hfirst, hlast, hdigits⟩ := h
    exact ⟨⟨⟨⟨⟨one_le_byteCount_iff.mp hsome, hbytes⟩, hchars⟩, hfirst⟩, hlast⟩, hdigits⟩

/-- Nothing in a label ends a segment or a path, is written in another way there, or leads out of it. -/
theorem IsLabel.plain (h : IsLabel name) : ∀ c ∈ name.toList, c ∉ ['/', '?', '#', '%', '.'] := by
  intro c hc hbad
  simp only [List.mem_cons, List.not_mem_nil, or_false] at hbad
  rcases h.chars c hc with hchar | rfl
  · have hrange := Path.toNat_of_isAlphanum hchar
    rcases hbad with rfl | rfl | rfl | rfl | rfl <;> simp at hrange
  · simp at hbad

theorem OfInstance.instanceOf (h : OfInstance name path) (hname : IsLabel name) : instanceOf path = name.toList := by
  have hsegment : ∀ c ∈ name.toList, decide (c ≠ '/') = true := by
    intro c hc
    have hplain := hname.plain c hc
    simp only [List.mem_cons, not_or] at hplain
    simpa using hplain.1
  have hdrop : ∀ behind : List Char, ("/1.0/instances/".toList ++ behind).drop "/1.0/instances/".length = behind := by
    intro behind
    rw [← String.length_toList, List.drop_left]
  unfold Daemon.instanceOf
  rcases h with rfl | rfl
  · rw [String.toList_append, hdrop, List.takeWhile_eq_self_iff]
    exact hsegment
  · rw [String.append_assoc, String.toList_append, hdrop, String.toList_append,
      List.takeWhile_append_of_pos hsegment]
    simp

/-- Two instances have no path in common. -/
theorem OfInstance.unique (h : OfInstance name path) (h' : OfInstance name' path) (hname : IsLabel name)
    (hname' : IsLabel name') : name = name' := by
  have hlists := (h.instanceOf hname).symm.trans (h'.instanceOf hname')
  exact String.toList_inj.mp hlists

end

/-! ## What is meant -/

/-- An answer so far has named that operation. -/
def Named (before : List Said) (operation : String) : Prop := ∃ q x, (q, .ok x) ∈ before ∧ x.Starts operation

/-- What may be asked for on behalf of an instance, after what has been said in the call. -/
inductive Intended (name : String) (before : List Said) : Request → Prop
  | handshake : Intended name before ⟨.get, "/1.0", none⟩
  | create {fields : List (String × Json)} : IsLabel name → fields.lookup "name" = some (.str name) →
      Intended name before ⟨.post, "/1.0/instances", some (.obj fields)⟩
  | own {q : Request} : IsLabel name → OfInstance name q.path → Intended name before q
  | wait {operation : String} : Named before operation → Intended name before ⟨.get, operation ++ "/wait", none⟩

/-- It is the wait for an operation that has been named, cut off at a `#`. -/
def CutOff (before : List Said) (q : Request) : Prop :=
  ∃ operation, Named before operation ∧ '#' ∈ operation.toList ∧ q = waitRequest operation

def Meant (name : String) (before : List Said) (q : Request) : Prop := Intended name before q ∨ CutOff before q

/-- All that was asked for was meant by then. -/
def Addressed (name : String) (l : List Said) : Prop :=
  ∀ before q a after, l = before ++ (q, a) :: after → Meant name before q

section

variable {name operation : String} {before before' l l' : List Said} {q : Request}

theorem Named.mono (h : Named before operation) (hmore : ∀ s ∈ before, s ∈ before') : Named before' operation := by
  obtain ⟨q, x, hmem, hstarts⟩ := h
  exact ⟨q, x, hmore _ hmem, hstarts⟩

/-- What has been said besides does not matter. -/
theorem Meant.mono (h : Meant name before q) (hmore : ∀ s ∈ before, s ∈ before') : Meant name before' q := by
  rcases h with h | ⟨operation, hnamed, hhash, hq⟩
  · left
    cases h with
    | handshake => exact .handshake
    | create hname hfields => exact .create hname hfields
    | own hname hplace => exact .own hname hplace
    | wait hnamed => exact .wait (hnamed.mono hmore)
  · right
    exact ⟨operation, hnamed.mono hmore, hhash, hq⟩

theorem Meant.handshake : Meant name before serverRequest := .inl .handshake

/-- The wait for an operation is meant, be it as it should or cut off. -/
theorem Meant.wait (h : Named before operation) : Meant name before (waitRequest operation) := by
  by_cases hhash : '#' ∈ operation.toList
  · exact .inr ⟨operation, h, hhash, rfl⟩
  · left
    rw [waitRequest_eq_iff.mpr hhash]
    exact .wait h

theorem Addressed.nil : Addressed name [] := by
  intro before q a after h
  simp at h

theorem Addressed.append (h : Addressed name l) (h' : Addressed name l') : Addressed name (l ++ l') := by
  intro before q a after hsplit
  rcases List.append_eq_append_iff.mp hsplit with ⟨front, rfl, hrest⟩ | ⟨rest, rfl, hrest⟩
  · apply (h' front q a after hrest).mono
    intro s hs
    exact List.mem_append_right l hs
  · cases rest with
    | nil =>
      -- the entry is the first of the second part
      apply (h' [] q a after hrest.symm).mono
      intro s hs
      cases hs
    | cons s rest =>
      obtain ⟨hs, -⟩ := List.cons.inj hrest
      subst hs
      exact h before q a rest rfl

theorem Addressed.singleton {a : Except Interruption Exchange} (h : Meant name [] q) : Addressed name [(q, a)] := by
  intro before q' a' after hsplit
  rcases List.cons_eq_append_iff.mp hsplit with ⟨rfl, hq⟩ | ⟨rest, -, hnil⟩
  · cases hq
    exact h
  · simp at hnil

/-- A call keeps to its instance if every stage of it does. -/
theorem Protocol.Gated.addressed {P : Protocol} (h : P.Gated l)
    (hP : ∀ {before stage q good}, P.Enters before stage (.ok q) good → Meant name before q) : Addressed name l := by
  intro before q a after hsplit
  obtain ⟨stage, good, henters, -⟩ := h before q a after hsplit
  exact hP henters

end

/-! ## What is asked for in a session -/

/-- All that was said is about that instance, and of one whose name is no label only a handshake can have been. -/
structure KeepsTo (name : String) (l : List Said) : Prop where
  addressed : Addressed name l
  refused : ¬IsLabel name → l = [] ∨ ∃ a, l = [(serverRequest, a)]

section

variable {name path : String} {r : InstanceRequest} {l : List Said} {tr : SessionTrace}

theorem meant_own {before : List Said} {q : Request} (hname : validName name = true) (h : OfInstance name q.path) :
    Meant name before q := .inl (.own (validName_iff.mp hname) h)

theorem addressed_create {q : SessionPlan (Except BackendFault Unit)} (h : (Session.create r).Leaves tr q) :
    Addressed r.name (said tr) := by
  have htalk := (plans_create.stands .nil h).talk
  apply htalk.gated.addressed
  intro before stage q good henters
  generalize hrequest : Except.ok q = request at henters
  cases henters with
  | post =>
    obtain ⟨hname, rfl⟩ := Endpoint.create_request_eq_ok_iff.mp hrequest.symm
    exact .inl (.create (validName_iff.mp hname) rfl)
  | wait hstarts =>
    obtain ⟨-, rfl⟩ := Endpoint.wait_request_eq_ok_iff.mp hrequest.symm
    apply Meant.wait
    exact ⟨_, _, List.mem_singleton.mpr rfl, hstarts⟩

theorem addressed_delete (hname : validName name = true) {q : SessionPlan (Except BackendFault Unit)}
    (h : (Session.delete name).Leaves tr q) : Addressed name (said tr) := by
  have htalk := ((plans_delete hname).stands .nil h).talk
  apply htalk.gated.addressed
  intro before stage q good henters
  generalize hrequest : Except.ok q = request at henters
  cases henters with
  | state =>
    cases hrequest
    exact meant_own hname (.inr rfl)
  | stop _ _ =>
    cases hrequest
    exact meant_own hname (.inr rfl)
  | stopWait _ _ hstarts =>
    obtain ⟨-, rfl⟩ := Endpoint.wait_request_eq_ok_iff.mp hrequest.symm
    apply Meant.wait
    exact ⟨_, _, List.mem_cons_of_mem _ (List.mem_singleton.mpr rfl), hstarts⟩
  | delete _ =>
    cases hrequest
    exact meant_own hname (.inl rfl)
  | deleteWait _ hstarts =>
    obtain ⟨-, rfl⟩ := Endpoint.wait_request_eq_ok_iff.mp hrequest.symm
    apply Meant.wait
    exact ⟨_, _, List.mem_append_right _ (List.mem_singleton.mpr rfl), hstarts⟩

theorem keepsTo_create {q : SessionPlan (Except BackendFault Unit)} (h : (Session.create r).Leaves tr q) :
    Addressed r.name (said tr) ∧ (¬IsLabel r.name → said tr = []) := by
  refine ⟨addressed_create h, ?_⟩
  intro hname
  have hrefused : (Endpoint.create r).request = .error (.invalidName r.name) := by
    unfold Endpoint.create
    exact if_neg fun hvalid => hname (validName_iff.mp hvalid)
  unfold Session.create at h
  exact Session.said_of_refused hrefused h

theorem keepsTo_delete {q : SessionPlan (Except BackendFault Unit)} (h : (Session.delete name).Leaves tr q) :
    Addressed name (said tr) ∧ (¬IsLabel name → said tr = []) := by
  by_cases hname : validName name = true
  · exact ⟨addressed_delete hname h, fun hnot => absurd (validName_iff.mp hname) hnot⟩
  · unfold Session.delete at h
    have hsaid := Session.said_of_refused (Endpoint.state_request_of_not hname) h
    rw [hsaid]
    exact ⟨.nil, fun _ => rfl⟩

theorem keepsTo_exist {q : SessionPlan (Except BackendFault Bool)} (h : (Session.exist name).Leaves tr q) :
    Addressed name (said tr) ∧ (¬IsLabel name → said tr = []) := by
  have hlook : ∀ a, validName name = true → Addressed name [(lookUpRequest name, a)] := by
    intro a hname
    apply Addressed.singleton
    exact meant_own hname (.inl rfl)
  cases Session.looks_exist h with
  | start => exact ⟨.nil, fun _ => rfl⟩
  | stopped why => exact ⟨.nil, fun _ => rfl⟩
  | refused _ => exact ⟨.nil, fun _ => rfl⟩
  | asking _ => exact ⟨.nil, fun _ => rfl⟩
  | brokenOff why hname => exact ⟨hlook _ hname, fun hnot => absurd (validName_iff.mp hname) hnot⟩
  | answered x hname => exact ⟨hlook _ hname, fun hnot => absurd (validName_iff.mp hname) hnot⟩

/-- A handshake is about no instance. -/
theorem keepsTo_hello (h : l = [] ∨ ∃ a, l = [(serverRequest, a)]) : KeepsTo name l := by
  refine ⟨?_, fun _ => h⟩
  rcases h with rfl | ⟨a, rfl⟩
  · exact .nil
  · exact .singleton .handshake

theorem keepsTo_within {β : Type} {p q : SessionPlan (Except BackendFault β)}
    (hp : ∀ {tr q}, p.Leaves tr q → Addressed name (said tr) ∧ (¬IsLabel name → said tr = []))
    (h : (Session.within path p).Leaves tr q) : KeepsTo name (said tr) := by
  cases Session.withinLeaves h with
  | opening hconnect => exact keepsTo_hello (Session.shakes_connect hconnect).hello
  | failed hconnect => exact keepsTo_hello (Session.shakes_connect hconnect).hello
  | @opened before after _ hconnect hafter =>
    have hhello := (Session.shakes_connect hconnect).hello
    obtain ⟨haddressed, hsilent⟩ := hp hafter
    rw [said_append]
    refine ⟨(keepsTo_hello hhello).addressed.append haddressed, ?_⟩
    intro hname
    rw [hsilent hname, List.append_nil]
    exact hhello

/-- Any call, up to anywhere in it. -/
theorem keepsTo_plan {c : BackendCall} (hc : c.Concerns name) {q : SessionPlan c.Answer}
    (h : (Session.plan path c).Leaves tr q) : KeepsTo name (said tr) := by
  cases c with
  | connect => exact keepsTo_hello (Session.shakes_connect h).hello
  | create r =>
    subst hc
    exact keepsTo_within keepsTo_create h
  | delete name' =>
    subst hc
    exact keepsTo_within keepsTo_delete h
  | exist name' =>
    subst hc
    exact keepsTo_within keepsTo_exist h
  | close =>
    apply keepsTo_hello
    left
    cases h with
    | here => rfl
    | call h =>
      cases h
      rfl

end

/-- The operation of a new instance is named after another one, with a `#` behind: the wait for it is a look at that
other instance. -/
theorem create_asks_for_another :
    let tr := smoothCreate "/1.0/instances/db#"
    let other : Request := ⟨.get, "/1.0/instances/db", none⟩
    (Session.plan "" (.create web)).Leaves tr (.done (.ok ())) ∧
      ∃ before a, said tr = before ++ [(other, a)] ∧ ¬Intended web.name before other := by
  intro tr other
  have hstarts : (accepting "/1.0/instances/db#").Starts "/1.0/instances/db#" :=
    (Endpoint.starts_iff (e := Endpoint.delete "") rfl).mpr (by decide +kernel)
  refine ⟨leaves_smoothCreate hstarts (by decide), [(createRequest web, .ok (accepting "/1.0/instances/db#"))], .ok finished,
    rfl, ?_⟩
  intro hintended
  generalize hq : other = q at hintended
  cases hintended with
  | handshake => exact absurd (congrArg Request.path hq) (by decide)
  | create _ _ => cases congrArg Request.method hq
  | own hname hplace =>
    subst hq
    exact absurd (hplace.instanceOf hname) (by decide)
  | @wait operation hnamed =>
    obtain ⟨q, x, hmem, hnames⟩ := hnamed
    cases List.mem_singleton.mp hmem
    cases hstarts.unique hnames
    exact absurd (congrArg Request.path hq) (by decide)

end Daemon

end MachineKeeper
