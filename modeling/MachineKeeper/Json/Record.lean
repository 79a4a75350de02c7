/-
  MachineKeeper.Json.Record — records with named fields.

  A record is an object; its members may come in any order, unknown ones are passed over, and a
  known one may come once. A field that is missing takes the value the record has for that, or
  is a fault, which is found at the end and in the order of the fields. A record may also be a
  list of its fields in order, whose tail may be missing in the same way.
-/

import MachineKeeper.Json.Codec

namespace MachineKeeper.Json

structure FieldCodec (α : Type) where
  name : String
  codec : Codec α
  /-- What the field is where it is missing. -/
  absent : Option α
  /-- Whether the field is left out when it has this value. -/
  omitted : α → Bool

namespace FieldCodec

variable {α : Type}

def required (name : String) (codec : Codec α) : FieldCodec α := ⟨name, codec, none, fun _ => false⟩

def withDefault (name : String) (codec : Codec α) (absent : α) : FieldCodec α :=
  ⟨name, codec, some absent, fun _ => false⟩

/-- A field that is left out exactly where it has its default. -/
def sparse [DecidableEq α] (name : String) (codec : Codec α) (absent : α) : FieldCodec α :=
  ⟨name, codec, some absent, fun a => decide (a = absent)⟩

end FieldCodec

/-- The fields of a record in order, and the type of their values together. -/
inductive Fields : Type → Type 1 where
  | nil : Fields Unit
  | cons {α σ : Type} (field : FieldCodec α) (rest : Fields σ) : Fields (α × σ)

/-- The field a name stands for, in a record of which some fields have been read. -/
structure Slot (π : Type) : Type 1 where
  Value : Type
  codec : Codec Value
  filled : Bool
  put : Value → π

namespace Fields

def count : {σ : Type} → Fields σ → Nat
  | _, .nil => 0
  | _, .cons _ rest => rest.count + 1

/-- The values read so far. -/
def Partial : {σ : Type} → Fields σ → Type
  | _, .nil => Unit
  | _, .cons (α := α) _ rest => Option α × rest.Partial

def blank : {σ : Type} → (fs : Fields σ) → fs.Partial
  | _, .nil => ()
  | _, .cons _ rest => (none, rest.blank)

def slot? (name : String) : {σ : Type} → (fs : Fields σ) → fs.Partial → Option (Slot fs.Partial)
  | _, .nil, _ => none
  | _, .cons field rest, p =>
    if field.name = name then some ⟨_, field.codec, p.1.isSome, fun a => (some a, p.2)⟩
    else (rest.slot? name p.2).map fun s => ⟨s.Value, s.codec, s.filled, fun a => (p.1, s.put a)⟩

def complete : {σ : Type} → (fs : Fields σ) → fs.Partial → Except Cause σ
  | _, .nil, _ => .ok ()
  | _, .cons field rest, p => do
    let a ← match p.1 <|> field.absent with
      | some a => .ok a
      | none => .error (.missingField field.name)
    .ok (a, ← rest.complete p.2)

/-- The member of that name, if it has not come before. -/
def member {σ : Type} (fs : Fields σ) (room : Nat) (p : fs.Partial) (name : String) :
    Except Cause (Reads fs.Partial) :=
  match fs.slot? name p with
  | none => .ok fun cs => do .ok (p, ← skip cs)
  | some slot =>
    if slot.filled then .error (.duplicateField name)
    else .ok fun cs => do
      let (a, rest) ← slot.codec.read room cs
      .ok (slot.put a, rest)

def decodeMember {σ : Type} (fs : Fields σ) (p : fs.Partial) (member : String × Json) :
    Except Cause fs.Partial :=
  match fs.slot? member.1 p with
  | none => .ok p
  | some slot =>
    if slot.filled then .error (.duplicateField member.1)
    else slot.put <$> slot.codec.decode member.2

/-- The fields as items of a list; `short` is the fault where the list ends before a field. -/
def readItems (short : Nat → Cause) (room : Nat) :
    {σ : Type} → Fields σ → Nat → Bool → Reads σ
  | _, .nil, _, _, cs => .ok ((), cs)
  | _, .cons field rest, index, first, cs => do
    match ← nextItem first cs with
    | (true, cs) =>
      let (a, cs) ← field.codec.read room cs
      let (more, cs) ← rest.readItems short room (index + 1) false cs
      .ok ((a, more), cs)
    | (false, cs) =>
      match field.absent with
      | none => .error (.on cs (short index))
      | some a =>
        let (more, cs) ← rest.readItems short room (index + 1) first cs
        .ok ((a, more), cs)

def decodeItems (short : Nat → Cause) :
    {σ : Type} → Fields σ → Nat → List Json → Except Cause (σ × List Json)
  | _, .nil, _, items => .ok ((), items)
  | _, .cons field rest, index, item :: items => do
    let a ← field.codec.decode item
    let (more, items) ← rest.decodeItems short (index + 1) items
    .ok ((a, more), items)
  | _, .cons field rest, index, [] =>
    match field.absent with
    | none => .error (short index)
    | some a => do
      let (more, items) ← rest.decodeItems short (index + 1) []
      .ok ((a, more), items)

def encode : {σ : Type} → Fields σ → σ → List (String × Json)
  | _, .nil, _ => []
  | _, .cons field rest, (a, more) =>
    if field.omitted a then rest.encode more
    else (field.name, field.codec.encode a) :: rest.encode more

end Fields

/-- What a fault calls a record of that name. -/
def recordText (name : String) : String := "struct " ++ name

/-- A record of that name has so many fields, and its items end before the one at the index. -/
def tooShort (name : String) (count index : Nat) : Cause :=
  .invalidLength index (recordText name ++ " with " ++ Text.decimal count ++
    (if count = 1 then " element" else " elements"))

namespace Codec

/-- A record of that name, whose values are packed from those of its fields. -/
def record {σ α : Type} (name : String) (fields : Fields σ) (pack : σ → α) (unpack : α → σ) :
    Codec α where
  read room cs :=
    match skipSpace cs with
    | [] => .error (.before [] .endInValue)
    | '[' :: rest => nested room (fun room cs => do
        let (s, rest) ← fields.readItems (tooShort name fields.count) room 0 true cs
        .ok (pack s, ← closeList rest)) rest
    | '\x7b' :: rest => nested room (fun room cs => do
        let (p, rest) ← object (fields.member room) fields.blank cs
        .ok (pack (← (fields.complete p).mapError (.before rest)), rest)) rest
    | cs => mismatch (recordText name) cs
  decode
    | .arr items => do
      match ← fields.decodeItems (tooShort name fields.count) 0 items with
      | (s, []) => .ok (pack s)
      | (_, _ :: _) => .error (.invalidLength items.length "fewer elements in array")
    | .obj members => do
      let p ← members.foldlM fields.decodeMember fields.blank
      .ok (pack (← fields.complete p))
    | j => .error (.invalidType j.shape (recordText name))
  encode a := .obj (fields.encode (unpack a))

end Codec

end MachineKeeper.Json
