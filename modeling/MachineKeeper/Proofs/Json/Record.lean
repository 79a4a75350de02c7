/-
  MachineKeeper.Proofs.Json.Record — records are read back as they were written.

  An object is read member by member, each taking what has been read so far a step further. The
  members of a written record are its fields in order, less those that are left out, and each of
  them fills its own slot and no other, because no two fields of a record share a name. What is
  left out is what the record takes to be there.

  Proved:
  - `takes_iff_skip`, `takes_iff_put`: what one member makes of the fields read so far.
  - `Codec.Lawful.record`: a record of lawful fields is lawful, and needs room for one more.
-/

import MachineKeeper.Proofs.Json.Codec

namespace MachineKeeper.Json

/-! ## The members of an object -/

section

variable {σ : Type} {onName : σ → String → Except Cause (Reads σ)}

/-- Reading the member takes `s` to `t`. -/
def Takes (onName : σ → String → Except Cause (Reads σ)) (s : σ) (member : String × Json) (t : σ) : Prop :=
  ∃ read, onName s member.1 = .ok read ∧ ∀ rest, Ends rest → read (member.2.write ++ rest) = .ok (t, rest)

/-- Reading the members one after another takes `s` to `t`. -/
def TakesAll (onName : σ → String → Except Cause (Reads σ)) : σ → List (String × Json) → σ → Prop
  | s, [], t => s = t
  | s, m :: ms, t => ∃ next, Takes onName s m next ∧ TakesAll onName next ms t

theorem nextName_first (name : String) (rest : List Char) :
    nextName true (writeString name ++ rest) = .ok (some name, rest) := by
  have hquote : isSpace '"' = false := rfl
  have hclose : ('"' : Char) ≠ '\x7d' := by decide
  simp only [nextName, writeString, List.cons_append, List.append_assoc, List.nil_append, skipSpace_cons hquote,
    if_neg hclose, if_true, nameTail, stringTail_write, bind, Except.bind]

theorem nextName_comma (name : String) (rest : List Char) :
    nextName false (',' :: (writeString name ++ rest)) = .ok (some name, rest) := by
  have hcomma : isSpace ',' = false := rfl
  have hquote : isSpace '"' = false := rfl
  have hclose : (',' : Char) ≠ '\x7d' := by decide
  simp only [nextName, writeString, List.cons_append, List.append_assoc, List.nil_append, skipSpace_cons hcomma,
    skipSpace_cons hquote, if_neg hclose, Bool.false_eq_true, if_false, if_true, nameTail, stringTail_write, bind,
    Except.bind]

theorem colon_cons (rest : List Char) : colon (':' :: rest) = .ok rest := rfl

/-- The text of a member. -/
def writeMember (m : String × Json) : List Char := writeField m.1 m.2.write

theorem members_more {s t : σ} {ms : List (String × Json)} (h : TakesAll onName s ms t) {fuel : Nat}
    (hfuel : ms.length < fuel) (rest : List Char) :
    members onName fuel false s ((ms.map writeMember).flatMap (',' :: ·) ++ '\x7d' :: rest) = .ok (t, '\x7d' :: rest) := by
  induction ms generalizing s fuel with
  | nil =>
    obtain ⟨fuel, rfl⟩ := Nat.exists_eq_add_of_lt hfuel
    cases h
    rfl
  | cons m ms ih =>
    obtain ⟨fuel, rfl⟩ : ∃ n, fuel = n + 1 := ⟨fuel - 1, by simp only [List.length_cons] at hfuel; omega⟩
    obtain ⟨next, ⟨read, hread, hvalue⟩, hms⟩ := h
    have hbehind := ends_behind '\x7d' (by decide) (ms.map writeMember) rest
    have hlt : ms.length < fuel := by simpa using hfuel
    have hmore := ih hms hlt
    simp only [List.map_cons, List.flatMap_cons, List.cons_append, List.append_assoc, members, writeMember, writeField,
      nextName_comma, hread, mapError_ok, colon_cons, bind, Except.bind]
    rw [hvalue _ hbehind]
    exact hmore

theorem members_write {s t : σ} {ms : List (String × Json)} (h : TakesAll onName s ms t) {fuel : Nat}
    (hfuel : ms.length < fuel) (rest : List Char) :
    members onName fuel true s (commaJoin (ms.map writeMember) ++ '\x7d' :: rest) = .ok (t, '\x7d' :: rest) := by
  obtain ⟨fuel, rfl⟩ : ∃ n, fuel = n + 1 := ⟨fuel - 1, by omega⟩
  cases ms with
  | nil =>
    cases h
    rfl
  | cons m ms =>
    obtain ⟨next, ⟨read, hread, hvalue⟩, hms⟩ := h
    have hbehind := ends_behind '\x7d' (by decide) (ms.map writeMember) rest
    have hlt : ms.length < fuel := by simpa using hfuel
    have hmore := members_more hms hlt rest
    simp only [List.map_cons, commaJoin_cons, List.cons_append, List.append_assoc, members, writeMember, writeField,
      nextName_first, hread, mapError_ok, colon_cons, bind, Except.bind]
    rw [hvalue _ hbehind]
    exact hmore

/-- An object whose members take the start to `t`. -/
theorem object_write {s t : σ} {ms : List (String × Json)} (h : TakesAll onName s ms t) (rest : List Char) :
    object onName s (commaJoin (writeFields ms) ++ '\x7d' :: rest) = .ok (t, rest) := by
  have hfuel : ms.length < (commaJoin (ms.map writeMember) ++ '\x7d' :: rest).length + 1 := by
    have := length_le_commaJoin (ms.map writeMember) (by
      simp only [List.mem_map, forall_exists_index, and_imp, forall_apply_eq_imp_iff₂]
      exact fun m _ => List.cons_ne_nil _ _)
    simp only [List.length_append, List.length_cons, List.length_map] at this ⊢
    omega
  have hmembers := members_write h hfuel rest
  have hwrite : writeFields ms = ms.map writeMember := writeFields_eq ms
  simp only [object, hwrite, hmembers, bind, Except.bind]
  rfl

end

/-! ## The fields of a record -/

namespace Fields

def names : {σ : Type} → Fields σ → List String
  | _, .nil => []
  | _, .cons field rest => field.name :: rest.names

/-- Lawful fields of different names, each of which is taken to be what it is where it is left out. -/
def Lawful (depth : Nat) : {σ : Type} → Fields σ → Prop
  | _, .nil => True
  | _, .cons field rest => field.codec.Lawful depth ∧ (∀ a, field.omitted a = true → field.absent = some a) ∧
      field.name ∉ rest.names ∧ rest.Lawful depth

/-- What has been read of a written record at its end. -/
def filled : {σ : Type} → (fs : Fields σ) → σ → fs.Partial
  | _, .nil, _ => ()
  | _, .cons field rest, (a, more) => (if field.omitted a then none else some a, rest.filled more)

theorem complete_filled {depth : Nat} {σ : Type} {fs : Fields σ} (h : fs.Lawful depth) (v : σ) :
    fs.complete (fs.filled v) = .ok v := by
  induction fs with
  | nil => rfl
  | cons field rest ih =>
    obtain ⟨-, homitted, -, hrest⟩ := h
    obtain ⟨a, more⟩ := v
    by_cases ha : field.omitted a = true
    · simp [complete, filled, ha, homitted a ha, ih hrest more, bind, Except.bind]
    · simp [complete, filled, ha, ih hrest more, bind, Except.bind]

theorem mem_names_of_mem_encode {σ : Type} {fs : Fields σ} {v : σ} {m : String × Json} (h : m ∈ fs.encode v) :
    m.1 ∈ fs.names := by
  induction fs with
  | nil => cases h
  | cons field rest ih =>
    obtain ⟨a, more⟩ := v
    simp only [encode] at h
    split at h
    · exact List.mem_cons_of_mem _ (ih h)
    · rcases List.mem_cons.mp h with rfl | h
      · exact List.mem_cons_self
      · exact List.mem_cons_of_mem _ (ih h)

section

variable {α σ : Type} {field : FieldCodec α} {rest : Fields σ} {room : Nat}

/-- A member of no field's name is skipped. -/
theorem takes_iff_skip {fs : Fields σ} {p q : fs.Partial} {m : String × Json} (hslot : fs.slot? m.1 p = none) :
    Takes (fs.member room) p m q ↔ ∀ text, Ends text → skip (m.2.write ++ text) = .ok text ∧ p = q := by
  simp only [Takes, member, hslot, Except.ok.injEq, exists_eq_left']
  refine forall_congr' fun text => forall_congr' fun _ => ?_
  cases skip (m.2.write ++ text) with
  | error stop => simp [bind, Except.bind]
  | ok left => simp [bind, Except.bind, and_comm]

/-- A member of a field's name fills its slot, once. -/
theorem takes_iff_put {fs : Fields σ} {p q : fs.Partial} {m : String × Json} {slot : Slot fs.Partial}
    (hslot : fs.slot? m.1 p = some slot) :
    Takes (fs.member room) p m q ↔ slot.filled = false ∧
      ∀ text, Ends text → ∃ a, slot.codec.read room (m.2.write ++ text) = .ok (a, text) ∧ slot.put a = q := by
  cases hfilled : slot.filled with
  | true => simp [Takes, member, hslot, hfilled]
  | false =>
    simp only [Takes, member, hslot, hfilled, Bool.false_eq_true, if_false, Except.ok.injEq, exists_eq_left', true_and]
    refine forall_congr' fun text => forall_congr' fun _ => ?_
    cases slot.codec.read room (m.2.write ++ text) with
    | error stop => simp [bind, Except.bind]
    | ok result => simp [bind, Except.bind, Prod.ext_iff, and_assoc, and_comm]

/-- A member of another name goes past the first field. -/
theorem takes_cons_of_ne {x : Option α} {p q : rest.Partial} {m : String × Json} (hm : field.name ≠ m.1)
    (h : Takes (rest.member room) p m q) : Takes ((Fields.cons field rest).member room) (x, p) m (x, q) := by
  cases hslot : rest.slot? m.1 p with
  | none =>
    have hcons : (Fields.cons field rest).slot? m.1 (x, p) = none := by
      simp only [slot?, if_neg hm, hslot, Option.map_none]
    refine (takes_iff_skip hcons).mpr fun text htext => ?_
    obtain ⟨hskip, rfl⟩ := (takes_iff_skip hslot).mp h text htext
    exact ⟨hskip, rfl⟩
  | some slot =>
    obtain ⟨hfilled, hread⟩ := (takes_iff_put hslot).mp h
    have hcons : (Fields.cons field rest).slot? m.1 (x, p) =
        some ⟨slot.Value, slot.codec, slot.filled, fun a => (x, slot.put a)⟩ := by
      simp only [slot?, if_neg hm, hslot, Option.map_some]
    refine (takes_iff_put hcons).mpr ⟨hfilled, fun text htext => ?_⟩
    obtain ⟨a, ha, rfl⟩ := hread text htext
    exact ⟨a, ha, rfl⟩

theorem takesAll_cons {x : Option α} {p q : rest.Partial} {ms : List (String × Json)}
    (hms : ∀ m ∈ ms, field.name ≠ m.1) (h : TakesAll (rest.member room) p ms q) :
    TakesAll ((Fields.cons field rest).member room) (x, p) ms (x, q) := by
  induction ms generalizing p with
  | nil =>
    cases h
    rfl
  | cons m ms ih =>
    obtain ⟨next, htakes, hnext⟩ := h
    exact ⟨(x, next), takes_cons_of_ne (hms m List.mem_cons_self) htakes,
      ih (fun m' hm' => hms m' (List.mem_cons_of_mem m hm')) hnext⟩

/-- A member of its name fills the first field. -/
theorem takes_cons_self {depth : Nat} (h : field.codec.Lawful depth) (hroom : depth ≤ room) (a : α) (p : rest.Partial) :
    Takes ((Fields.cons field rest).member room) (none, p) (field.name, field.codec.encode a) (some a, p) := by
  have hfirst : (Fields.cons field rest).slot? field.name (none, p) =
      some ⟨α, field.codec, false, fun a => (some a, p)⟩ := by
    simp only [slot?, if_true, Option.isSome_none]
  exact (takes_iff_put hfirst).mpr ⟨rfl, fun text htext => ⟨a, h.reads a room text hroom htext, rfl⟩⟩

end

/-- The members of a written record fill the fields with what was written. -/
theorem takesAll_encode {depth room : Nat} {σ : Type} {fs : Fields σ} (h : fs.Lawful depth) (hroom : depth ≤ room)
    (v : σ) : TakesAll (fs.member room) fs.blank (fs.encode v) (fs.filled v) := by
  induction fs with
  | nil => rfl
  | cons field rest ih =>
    obtain ⟨hcodec, -, hname, hrest⟩ := h
    obtain ⟨a, more⟩ := v
    have hother : ∀ m ∈ rest.encode more, field.name ≠ m.1 :=
      fun m hm he => hname (he ▸ mem_names_of_mem_encode hm)
    by_cases ha : field.omitted a = true
    · simp only [encode, filled, ha, if_true]
      exact takesAll_cons hother (ih hrest more)
    · simp only [encode, filled, ha]
      exact ⟨_, takes_cons_self hcodec hroom a rest.blank, takesAll_cons hother (ih hrest more)⟩

end Fields

/-! ## Records -/

theorem Codec.Lawful.record {depth : Nat} {α σ : Type} {name : String} {fields : Fields σ} {pack : σ → α}
    {unpack : α → σ} (h : fields.Lawful depth) (hpack : ∀ a, pack (unpack a) = a) :
    (Codec.record name fields pack unpack).Lawful (depth + 1) where
  starts a := ⟨'\x7b', _, rfl, rfl, by decide⟩
  reads a room rest hroom _ := by
    obtain ⟨room, rfl⟩ : ∃ n, room = n + 1 := ⟨room - 1, by omega⟩
    have hopen : isSpace '\x7b' = false := rfl
    have hinside : depth ≤ room := by omega
    have hobject := object_write (Fields.takesAll_encode h hinside (unpack a)) rest
    have hcomplete := Fields.complete_filled h (unpack a)
    simp only [Codec.record, write, List.cons_append, List.append_assoc, List.nil_append, skipSpace_cons hopen, nested,
      hobject, hcomplete, hpack, mapError_ok, bind, Except.bind]

end MachineKeeper.Json
