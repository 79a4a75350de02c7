/-
  MachineKeeper.Proofs.Json.Codec — codecs that read back what they write.

  A lawful codec reads the text of each of its values, at the head of whatever the writer may put
  behind it, given room for so many lists and objects inside one another (`Codec.Lawful`). The
  laws are those of the combinators, so that of an object is put together like its codec.

  Proved:
  - `leaf`, `integer`, `optional`, `list`, `variant`: a codec made of lawful ones is lawful.
  - `ofText_text`: a lawful codec reads the whole text of a value.
-/

import MachineKeeper.Json.Record
import MachineKeeper.Proofs.Json.Scalar

namespace MachineKeeper.Json

/-- The text of a value starts neither with a blank nor like the end of a list. -/
def Starts (j : Json) : Prop := ∃ c cs, j.write = c :: cs ∧ isSpace c = false ∧ c ≠ ']'

theorem skipSpace_cons {c : Char} (h : isSpace c = false) (cs : List Char) : skipSpace (c :: cs) = c :: cs :=
  List.dropWhile_cons_of_neg (by simp [h])

theorem Starts.skipSpace {j : Json} (h : j.Starts) (rest : List Char) :
    Json.skipSpace (j.write ++ rest) = j.write ++ rest := by
  obtain ⟨c, cs, hj, hc, -⟩ := h
  rw [hj, List.cons_append, skipSpace_cons hc]

structure Codec.Lawful {α : Type} (depth : Nat) (c : Codec α) : Prop where
  starts : ∀ a, (c.encode a).Starts
  reads : ∀ a room rest, depth ≤ room → Ends rest → c.read room ((c.encode a).write ++ rest) = .ok (a, rest)

namespace Codec.Lawful

variable {α : Type} {depth : Nat}

theorem ofText_text {c : Codec α} (h : c.Lawful depth) (hdepth : depth ≤ maxDepth) (a : α) :
    c.ofText (c.text a) = .ok a := by
  have hread := h.reads a maxDepth [] hdepth ends_nil
  rw [List.append_nil] at hread
  simp only [ofText, whole, Codec.text, Json.text, String.toList_ofList, hread, bind, Except.bind]
  rfl

theorem mono {c : Codec α} (h : c.Lawful depth) {more : Nat} (hmore : depth ≤ more) : c.Lawful more where
  starts := h.starts
  reads a room rest hroom := h.reads a room rest (Nat.le_trans hmore hroom)

/-! ## Values that hold no others -/

theorem leaf {expected : String} {decode : Json → Except Cause α} {encode : α → Json}
    (hback : ∀ a, ReadsBack (encode a)) (hdecode : ∀ a, decode (encode a) = .ok a) :
    (Codec.leaf expected decode encode).Lawful 0 where
  starts a := by
    obtain ⟨c, cs, hj, hc, -⟩ := hback a
    exact ⟨c, cs, hj, hc.1, hc.2.1⟩
  reads a room rest _ hrest := by
    obtain ⟨c, cs, hj, hc, hscalar⟩ := hback a
    have hlist : c ≠ '[' := hc.2.2.1
    have hobject : c ≠ '\x7b' := hc.2.2.2.1
    simp only [Codec.leaf, hj, List.cons_append, skipSpace_cons hc.1, if_neg hlist, if_neg hobject,
      hscalar rest hrest, hdecode, bind, Except.bind, mapError_ok]

theorem string : Codec.string.Lawful 0 := leaf back_str fun _ => rfl

theorem integer {width : String} {ofInt? : Int → Option α} {toInt : α → Int}
    (hrange : ∀ a, -9223372036854775808 ≤ toInt a ∧ toInt a < UInt64.size)
    (hofInt : ∀ a, ofInt? (toInt a) = some a) : (Codec.integer width ofInt? toInt).Lawful 0 :=
  leaf (fun a => back_int (hrange a).1 (hrange a).2) fun a => by simp only [hofInt]

/-! ## Options and variants -/

theorem optional {c : Codec α} (h : c.Lawful depth) (hnull : ∀ a cs, (c.encode a).write ≠ 'n' :: cs) :
    (Codec.optional c).Lawful depth where
  starts a := by
    cases a with
    | none => exact ⟨'n', _, rfl, rfl, by decide⟩
    | some a => exact h.starts a
  reads a room rest hroom hrest := by
    cases a with
    | none => rfl
    | some a =>
      have hread := h.reads a room rest hroom hrest
      have hskip := (h.starts a).skipSpace rest
      obtain ⟨x, xs, hx, -⟩ := h.starts a
      have hn : x ≠ 'n' := fun he => hnull a xs (he ▸ hx)
      simp only [Codec.optional, hskip]
      rw [hx, List.cons_append] at hread ⊢
      split
      · rename_i heq
        exact absurd (List.cons.inj heq).1 hn
      · rw [hread]
        rfl

theorem variant {variants : List (String × α)} {nameOf : α → String}
    (hpick : ∀ a, Codec.pick variants (nameOf a) = .ok a) : (Codec.variant variants nameOf).Lawful 0 where
  starts a := ⟨'"', _, rfl, rfl, by decide⟩
  reads a room rest _ _ := by
    have hquote : isSpace '"' = false := rfl
    simp only [Codec.variant, write, writeString, List.cons_append, List.append_assoc, List.nil_append,
      skipSpace_cons hquote, Codec.variantTail, stringTail_write, hpick, bind, Except.bind, mapError_ok]

/-! ## Lists -/

end Codec.Lawful

theorem commaJoin_cons (x : List Char) (xs : List (List Char)) :
    commaJoin (x :: xs) = x ++ xs.flatMap (',' :: ·) := by
  induction xs generalizing x with
  | nil => simp [commaJoin]
  | cons y ys ih => simp [commaJoin, ih]

theorem writeItems_eq (js : List Json) : writeItems js = js.map write := by
  induction js with
  | nil => rfl
  | cons j js ih => rw [writeItems, ih, List.map_cons]

theorem writeFields_eq (fs : List (String × Json)) : writeFields fs = fs.map fun f => writeField f.1 f.2.write := by
  induction fs with
  | nil => rfl
  | cons f fs ih => rw [writeFields, ih, List.map_cons]

/-- Behind an item stands a comma or the end of the list, and neither goes on with a number. -/
theorem ends_behind (close : Char) (hclose : close.isDigit = false ∧ close ≠ '.' ∧ close ≠ 'e' ∧ close ≠ 'E')
    (xs : List (List Char)) (rest : List Char) : Ends (xs.flatMap (',' :: ·) ++ close :: rest) := by
  cases xs with
  | nil => exact ends_cons hclose rest
  | cons x xs => exact ends_cons (by decide) _

section

variable {α : Type} {item : Reads α} {encode : α → Json}

theorem nextItem_first {j : Json} (h : j.Starts) (rest : List Char) :
    nextItem true (j.write ++ rest) = .ok (true, j.write ++ rest) := by
  obtain ⟨c, cs, hj, hc, hclose⟩ := h
  simp only [nextItem, hj, List.cons_append, skipSpace_cons hc, if_neg hclose, if_true]

theorem nextItem_comma {j : Json} (h : j.Starts) (rest : List Char) :
    nextItem false (',' :: (j.write ++ rest)) = .ok (true, j.write ++ rest) := by
  have hcomma : isSpace ',' = false := rfl
  have hne : (',' : Char) ≠ ']' := by decide
  obtain ⟨c, cs, hj, hc, hclose⟩ := h
  simp only [nextItem, skipSpace_cons hcomma, if_neg hne, Bool.false_eq_true, if_false, if_true, hj, List.cons_append,
    skipSpace_cons hc]
  split
  · rename_i heq
    cases heq
  · rename_i heq
    exact absurd (List.cons.inj heq).1 hclose
  · rfl

variable (hstarts : ∀ a, (encode a).Starts) (hitem : ∀ a rest, Ends rest → item ((encode a).write ++ rest) = .ok (a, rest))

include hstarts hitem

/-- The items behind the first one. -/
theorem items_more (xs : List α) {fuel : Nat} (hfuel : xs.length < fuel) (rest : List Char) :
    items item fuel false ((xs.map fun a => (encode a).write).flatMap (',' :: ·) ++ ']' :: rest) =
      .ok (xs, ']' :: rest) := by
  induction xs generalizing fuel with
  | nil =>
    obtain ⟨fuel, rfl⟩ := Nat.exists_eq_add_of_lt hfuel
    rfl
  | cons x xs ih =>
    obtain ⟨fuel, rfl⟩ : ∃ n, fuel = n + 1 := ⟨fuel - 1, by simp only [List.length_cons] at hfuel; omega⟩
    have hxs : xs.length < fuel := by simpa using hfuel
    have hbehind := ends_behind ']' (by decide) (xs.map fun a => (encode a).write) rest
    simp only [List.map_cons, List.flatMap_cons, List.cons_append, List.append_assoc, items,
      nextItem_comma (hstarts x), hitem x _ hbehind, ih hxs, bind, Except.bind]

theorem items_write (xs : List α) {fuel : Nat} (hfuel : xs.length < fuel) (rest : List Char) :
    items item fuel true (commaJoin (xs.map fun a => (encode a).write) ++ ']' :: rest) = .ok (xs, ']' :: rest) := by
  obtain ⟨fuel, rfl⟩ : ∃ n, fuel = n + 1 := ⟨fuel - 1, by omega⟩
  cases xs with
  | nil => rfl
  | cons x xs =>
    have hbehind := ends_behind ']' (by decide) (xs.map fun a => (encode a).write) rest
    have hxs : xs.length < fuel := by simpa using hfuel
    have hmore := items_more hstarts hitem xs hxs rest
    simp only [List.map_cons, commaJoin_cons, List.append_assoc, items, nextItem_first (hstarts x), hitem x _ hbehind,
      hmore, bind, Except.bind]

end

theorem length_le_flatMap_comma (xs : List (List Char)) : xs.length ≤ (xs.flatMap (',' :: ·)).length := by
  induction xs with
  | nil => exact Nat.le_refl _
  | cons x xs ih =>
    simp only [List.flatMap_cons, List.length_append, List.length_cons]
    omega

/-- There are no more items than characters, so the fuel is enough. -/
theorem length_le_commaJoin (xs : List (List Char)) (h : ∀ x ∈ xs, x ≠ []) : xs.length ≤ (commaJoin xs).length := by
  cases xs with
  | nil => exact Nat.le_refl _
  | cons x xs =>
    have hx := List.length_pos_iff.mpr (h x List.mem_cons_self)
    have hxs := length_le_flatMap_comma xs
    simp only [commaJoin_cons, List.length_append, List.length_cons]
    omega

theorem Starts.write_ne_nil {j : Json} (h : j.Starts) : j.write ≠ [] := by
  obtain ⟨c, cs, hj, -⟩ := h
  rw [hj]
  exact List.cons_ne_nil c cs

namespace Codec.Lawful

variable {α : Type} {depth : Nat}

theorem list {c : Codec α} (h : c.Lawful depth) : (Codec.list c).Lawful (depth + 1) where
  starts a := ⟨'[', _, rfl, rfl, by decide⟩
  reads xs room rest hroom _ := by
    obtain ⟨room, rfl⟩ : ∃ n, room = n + 1 := ⟨room - 1, by omega⟩
    have hopen : isSpace '[' = false := rfl
    have hjoin : writeItems (xs.map c.encode) = xs.map fun a => (c.encode a).write := by
      rw [writeItems_eq, List.map_map]
      rfl
    have hfuel : xs.length < (commaJoin (xs.map fun a => (c.encode a).write) ++ ']' :: rest).length + 1 := by
      have := length_le_commaJoin (xs.map fun a => (c.encode a).write) (by
        simp only [List.mem_map, forall_exists_index, and_imp, forall_apply_eq_imp_iff₂]
        exact fun a _ => (h.starts a).write_ne_nil)
      simp only [List.length_append, List.length_cons, List.length_map] at this ⊢
      omega
    have hitems := items_write h.starts (fun a rest hrest => h.reads a room rest (by omega) hrest) xs hfuel rest
    simp only [Codec.list, write, hjoin, List.cons_append, List.append_assoc, List.nil_append, skipSpace_cons hopen,
      nested, Json.list, hitems, bind, Except.bind]
    rfl

end Codec.Lawful

end MachineKeeper.Json
