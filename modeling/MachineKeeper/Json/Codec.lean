/-
  MachineKeeper.Json.Codec — how the values of a type look in JSON.

  A codec reads its type from a text, in one pass and with the leftmost fault; decodes it from
  a value that has been read already; and encodes it. The two ways in differ only where a value
  is refused: a text may break the grammar, and a value has forgotten the order of its fields.
-/

import MachineKeeper.Json.Reader
import MachineKeeper.Json.Writer
import MachineKeeper.Timestamp.Reader
import MachineKeeper.Timestamp.Writer

namespace MachineKeeper.Json

structure Codec (α : Type) where
  /-- Reads one value at the head of a text, with so much room for nesting. -/
  read : Nat → Reads α
  decode : Json → Except Cause α
  encode : α → Json

namespace Codec

variable {α : Type}

def ofText (c : Codec α) (s : String) : Except Fault α := whole c.read s

def text (c : Codec α) (a : α) : String := (c.encode a).text

/-- A value that holds no others: it is read as it stands and then decoded. -/
def leaf (expected : String) (decode : Json → Except Cause α) (encode : α → Json) : Codec α where
  read _ cs :=
    match skipSpace cs with
    | [] => .error (.before [] .endInValue)
    | c :: rest =>
      if c = '[' then .error (.before rest (.invalidType .sequence expected))
      else if c = '\x7b' then .error (.before rest (.invalidType .map expected))
      else do
        let (j, rest) ← scalar c rest
        .ok (← (decode j).mapError (.after j rest), rest)
  decode := decode
  encode := encode

def string : Codec String :=
  leaf "a string"
    (fun
      | .str s => .ok s
      | j => .error (.invalidType j.shape "a string"))
    .str

/-- Integers of some width. One that does not fit is refused with its value. -/
def integer (width : String) (ofInt? : Int → Option α) (toInt : α → Int) : Codec α :=
  leaf width
    (fun
      | .int n =>
        match ofInt? n with
        | some a => .ok a
        | none => .error (.invalidValue (.integer n) width)
      | j => .error (.invalidType j.shape width))
    (fun a => .int (toInt a))

def int32 : Codec Int32 :=
  integer "i32"
    (fun n => if -2147483648 ≤ n ∧ n ≤ 2147483647 then some (Int32.ofInt n) else none)
    Int32.toInt

def int64 : Codec Int64 :=
  integer "i64"
    (fun n =>
      if -9223372036854775808 ≤ n ∧ n ≤ 9223372036854775807 then some (Int64.ofInt n)
      else none)
    Int64.toInt

def uint16 : Codec UInt16 :=
  integer "u16"
    (fun n => if 0 ≤ n ∧ n < UInt16.size then some (UInt16.ofNat n.toNat) else none) (·.toNat)

def uint64 : Codec UInt64 :=
  integer "u64"
    (fun n => if 0 ≤ n ∧ n < UInt64.size then some (UInt64.ofNat n.toNat) else none) (·.toNat)

def timestamp : Codec Timestamp :=
  let expected := "an RFC 3339 formatted date and time string"
  leaf expected
    (fun
      | .str s =>
        match Timestamp.ofText s with
        | .ok t => .ok t
        | .error fault => .error (.refused fault.message)
      | j => .error (.invalidType j.shape expected))
    (fun t => .str t.text)

/-- Any value, kept as it is. -/
def any : Codec Json := ⟨value, .ok, id⟩

/-- A value, or null for its absence. -/
def optional (c : Codec α) : Codec (Option α) where
  read room cs :=
    match skipSpace cs with
    | 'n' :: rest => do .ok (none, ← ident ['u', 'l', 'l'] rest)
    | cs => do
      let (a, rest) ← c.read room cs
      .ok (some a, rest)
  decode
    | .null => .ok none
    | j => some <$> c.decode j
  encode
    | none => .null
    | some a => c.encode a

def list (c : Codec α) : Codec (List α) where
  read room cs :=
    match skipSpace cs with
    | [] => .error (.before [] .endInValue)
    | '[' :: rest => nested room (fun room => Json.list (c.read room)) rest
    | cs => mismatch "a sequence" cs
  decode
    | .arr items => items.mapM c.decode
    | j => .error (.invalidType j.shape "a sequence")
  encode xs := .arr (xs.map c.encode)

/-! ## Variants -/

def pick (variants : List (String × α)) (name : String) : Except Cause α :=
  match variants.find? (·.1 = name) with
  | some (_, a) => .ok a
  | none => .error (.unknownVariant name (variants.map (·.1)))

/-- The variant that the rest of a string names. -/
def variantTail (variants : List (String × α)) : Reads α := fun cs => do
  let (name, rest) ← stringTail cs
  .ok (← (pick variants name).mapError (.before rest), rest)

/-- The variant that the only member of an object names. -/
def variantName (variants : List (String × α)) : Reads α := fun cs =>
  match skipSpace cs with
  | [] => .error (.before [] .endInObject)
  | '"' :: rest => variantTail variants rest
  | '\x7d' :: rest => .error (.before rest .expectedValue)
  | cs => .error (.on cs .keyNotString)

/-- The null that may stand behind the name of a variant. -/
def unit : Reads Unit := fun cs =>
  match skipSpace cs with
  | [] => .error (.before [] .endInValue)
  | 'n' :: rest => do .ok ((), ← ident ['u', 'l', 'l'] rest)
  | cs => mismatch "unit" cs

/-- One of several names: a string, or an object whose only member has that name and is null. -/
def variant (variants : List (String × α)) (nameOf : α → String) : Codec α where
  read room cs :=
    match skipSpace cs with
    | [] => .error (.before [] .endInValue)
    | '"' :: rest => variantTail variants rest
    | '\x7b' :: rest =>
      nested room (fun _ cs => do
        let (a, cs) ← variantName variants cs
        let ((), cs) ← unit (← colon cs)
        match skipSpace cs with
        | [] => .error (.before [] .endInObject)
        | '\x7d' :: rest => .ok (a, rest)
        | cs => .error (.on cs .expectedValue)) rest
    | cs => .error (.on cs .expectedValue)
  decode
    | .str name => pick variants name
    | .obj [(name, payload)] => do
      let a ← pick variants name
      match payload with
      | .null => .ok a
      | j => .error (.invalidType j.shape "unit")
    | .obj _ => .error (.invalidValue .map "map with a single key")
    | j => .error (.invalidType j.shape "string or map")
  encode a := .str (nameOf a)

end Codec

end MachineKeeper.Json
