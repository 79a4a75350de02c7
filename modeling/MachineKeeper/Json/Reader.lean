/-
  MachineKeeper.Json.Reader — reading JSON from text.

  A reader takes a prefix of the text and hands on the rest, or stops at the leftmost fault. It
  looks at one byte at a time, and at one more than it takes only where it has to, which is what
  the place of a fault counts. Strings and values that are kept are checked in full. What nobody asked for is
  passed over by `skip`, which is as strict about the grammar but keeps nothing, so it takes
  any depth and any escaped code unit. Kept values may nest only so deep: `room` says how many
  more lists and objects fit inside one another.

  The loops over items and members take fuel. Every round but the first eats a comma, so one
  more than the length of the text is always enough.
-/

import MachineKeeper.Json.Number

namespace MachineKeeper.Json

def isSpace (c : Char) : Bool := c == ' ' || c == '\n' || c == '\t' || c == '\r'

def skipSpace (cs : List Char) : List Char := cs.dropWhile isSpace

/-- The rest of a word whose first letter has been read. -/
def ident (word : List Char) : List Char → Except Stop (List Char) := fun cs =>
  match word, cs with
  | [], cs => .ok cs
  | _ :: _, [] => .error (.before [] .endInValue)
  | w :: ws, c :: cs => if w = c then ident ws cs else .error (.on (c :: cs) .expectedIdent)

/-! ## Strings -/

def hexValue? (c : Char) : Option Nat :=
  if '0' ≤ c ∧ c ≤ '9' then some (c.toNat - 48)
  else if 'a' ≤ c ∧ c ≤ 'f' then some (c.toNat - 87)
  else if 'A' ≤ c ∧ c ≤ 'F' then some (c.toNat - 55)
  else none

/-- The four hex digits of an escaped code unit. Four bytes are looked at, digits or not. -/
def hexEscape : Reads Nat := fun cs =>
  match cs with
  | a :: b :: c :: d :: rest =>
    match hexValue? a, hexValue? b, hexValue? c, hexValue? d with
    | some a, some b, some c, some d => .ok (((a * 16 + b) * 16 + c) * 16 + d, rest)
    | _, _, _, _ => .error ⟨.invalidEscape, Text.byteCount cs - 4⟩
  | _ =>
    .error ⟨if Text.byteCount cs < 4 then .endInString else .invalidEscape,
      Text.byteCount cs - 4⟩

/-- The letter after a backslash, where it stands for one character. -/
def simpleEscape? (c : Char) : Option Char :=
  if c = '"' then some '"'
  else if c = '\\' then some '\\'
  else if c = '/' then some '/'
  else if c = 'b' then some '\x08'
  else if c = 'f' then some '\x0c'
  else if c = 'n' then some '\n'
  else if c = 'r' then some '\r'
  else if c = 't' then some '\t'
  else none

/-- After `\u`: one code unit, or two that make up a character between them. -/
def codeUnits : Reads Char := fun cs => do
  let (high, rest) ← hexEscape cs
  if 0xDC00 ≤ high ∧ high ≤ 0xDFFF then .error (.before rest .loneSurrogate)
  else if 0xD800 ≤ high ∧ high ≤ 0xDBFF then
    match rest with
    | [] => .error (.before [] .endInString)
    | '\\' :: rest =>
      match rest with
      | [] => .error (.before [] .endInString)
      | 'u' :: rest => do
        let (low, rest) ← hexEscape rest
        if 0xDC00 ≤ low ∧ low ≤ 0xDFFF then
          .ok (Char.ofNat (0x10000 + (high - 0xD800) * 0x400 + (low - 0xDC00)), rest)
        else .error (.before rest .loneSurrogate)
      | _ => .error (.on rest .endOfHexEscape)
    | _ => .error (.on rest .endOfHexEscape)
  else .ok (Char.ofNat high, rest)

/-- One character of a string, or none where the closing quote stands. -/
def stringChar : Reads (Option Char)
  | [] => .error (.before [] .endInString)
  | c :: cs =>
    if c = '"' then .ok (none, cs)
    else if c = '\\' then
      match cs with
      | [] => .error (.before [] .endInString)
      | e :: rest =>
        match simpleEscape? e with
        | some c => .ok (some c, rest)
        | none =>
          if e = 'u' then do
            let (c, rest) ← codeUnits rest
            .ok (some c, rest)
          else .error (.on cs .invalidEscape)
    else if c.toNat < 0x20 then .error (.before cs .controlCharacter)
    else .ok (some c, cs)

def stringChars : Nat → Reads (List Char)
  | 0, cs => .error (.before cs .endInString)
  | fuel + 1, cs => do
    match ← stringChar cs with
    | (none, rest) => .ok ([], rest)
    | (some c, rest) =>
      let (more, rest) ← stringChars fuel rest
      .ok (c :: more, rest)

/-- The rest of a string whose opening quote has been read. -/
def stringTail : Reads String := fun cs => do
  let (chars, rest) ← stringChars (cs.length + 1) cs
  .ok (String.ofList chars, rest)

/-- Passes over the rest of a string; code units need not pair up. -/
def skipString : Nat → List Char → Except Stop (List Char)
  | 0, cs => .error (.before cs .endInString)
  | _ + 1, [] => .error (.before [] .endInString)
  | fuel + 1, c :: cs =>
    if c = '"' then .ok cs
    else if c = '\\' then
      match cs with
      | [] => .error (.before [] .endInString)
      | e :: rest =>
        if (simpleEscape? e).isSome then skipString fuel rest
        else if e = 'u' then do
          let (_, rest) ← hexEscape rest
          skipString fuel rest
        else .error (.on cs .invalidEscape)
    else if c.toNat < 0x20 then .error (.before cs .controlCharacter)
    else skipString fuel cs

/-! ## Passing over a value -/

/-- What stands around the value being passed over, innermost first. -/
inductive Frame where
  | list
  | object
  deriving DecidableEq

/-- The start of a member: its name and the colon. -/
def skipName (cs : List Char) : Except Stop (List Char) :=
  match skipSpace cs with
  | [] => .error (.before [] .endInObject)
  | c :: cs =>
    if c ≠ '"' then .error (.on (c :: cs) .keyNotString)
    else do
      match skipSpace (← skipString (cs.length + 1) cs) with
      | [] => .error (.before [] .endInObject)
      | ':' :: cs => .ok cs
      | cs => .error (.on cs .expectedColon)

/-- One value that holds no others, or none where a list or object opens. -/
def skipScalar : List Char → Except Stop (Option (List Char))
  | [] => .error (.before [] .endInValue)
  | c :: cs =>
    if c = 'n' then some <$> ident ['u', 'l', 'l'] cs
    else if c = 't' then some <$> ident ['r', 'u', 'e'] cs
    else if c = 'f' then some <$> ident ['a', 'l', 's', 'e'] cs
    else if c = '-' then some <$> skipNumber cs
    else if c.isDigit then some <$> skipNumber (c :: cs)
    else if c = '"' then some <$> skipString (cs.length + 1) cs
    else if c = '[' ∨ c = '\x7b' then .ok none
    else .error (.on (c :: cs) .expectedValue)

/-- Where the passing over stands: at the start of a value, or behind one. -/
inductive Phase where
  | value
  | opened
  | behind

/-- Passes over the value at the head of the text and all that its frames still hold. -/
def skipFrames : Nat → Phase → List Frame → List Char → Except Stop (List Char)
  | 0, _, _, cs => .error (.before cs .expectedValue)
  | fuel + 1, .value, frames, cs => do
    match ← skipScalar (skipSpace cs) with
    | some rest => skipFrames fuel .behind frames rest
    | none =>
      match skipSpace cs with
      | '[' :: rest => skipFrames fuel .opened (.list :: frames) rest
      | _ :: rest => skipFrames fuel .opened (.object :: frames) rest
      | [] => .error (.before [] .endInValue)
  | _ + 1, .behind, [], cs => .ok cs
  | _ + 1, .opened, [], cs => .ok cs
  | fuel + 1, .behind, .list :: frames, cs =>
    match skipSpace cs with
    | [] => .error (.before [] .endInList)
    | ',' :: rest => skipFrames fuel .value (.list :: frames) rest
    | ']' :: rest => skipFrames fuel .behind frames rest
    | cs => .error (.on cs .expectedCommaOrBracket)
  | fuel + 1, .behind, .object :: frames, cs =>
    match skipSpace cs with
    | [] => .error (.before [] .endInObject)
    | ',' :: rest => do skipFrames fuel .value (.object :: frames) (← skipName rest)
    | '\x7d' :: rest => skipFrames fuel .behind frames rest
    | cs => .error (.on cs .expectedCommaOrBrace)
  | fuel + 1, .opened, .list :: frames, cs =>
    match skipSpace cs with
    | [] => .error (.before [] .endInList)
    | ']' :: rest => skipFrames fuel .behind frames rest
    | cs => skipFrames fuel .value (.list :: frames) cs
  | fuel + 1, .opened, .object :: frames, cs =>
    match skipSpace cs with
    | [] => .error (.before [] .endInObject)
    | '\x7d' :: rest => skipFrames fuel .behind frames rest
    | cs => do skipFrames fuel .value (.object :: frames) (← skipName cs)

/-- Passes over one value of any kind. -/
def skip (cs : List Char) : Except Stop (List Char) :=
  skipFrames (2 * cs.length + 2) .value [] cs

/-! ## Lists and objects -/

/-- Whether another item of a list follows. `first` holds before the first one. -/
def nextItem (first : Bool) : Reads Bool := fun cs =>
  match skipSpace cs with
  | [] => .error (.before [] .endInList)
  | c :: rest =>
    if c = ']' then .ok (false, c :: rest)
    else if first then .ok (true, c :: rest)
    else if c = ',' then
      match skipSpace rest with
      | [] => .error (.before [] .endInValue)
      | ']' :: cs => .error (.before cs .trailingComma)
      | cs => .ok (true, cs)
    else .error (.on (c :: rest) .expectedCommaOrBracket)

/-- The rest of a member's name, whose opening quote has been read. -/
def nameTail : Reads (Option String) := fun cs => do
  let (name, rest) ← stringTail cs
  .ok (some name, rest)

/-- The name of another member of an object, if one follows. -/
def nextName (first : Bool) : Reads (Option String) := fun cs =>
  match skipSpace cs with
  | [] => .error (.before [] .endInObject)
  | c :: rest =>
    if c = '\x7d' then .ok (none, c :: rest)
    else if first then
      if c = '"' then nameTail rest else .error (.on (c :: rest) .keyNotString)
    else if c = ',' then
      match skipSpace rest with
      | [] => .error (.before [] .endInValue)
      | '"' :: cs => nameTail cs
      | '\x7d' :: cs => .error (.before cs .trailingComma)
      | cs => .error (.on cs .keyNotString)
    else .error (.on (c :: rest) .expectedCommaOrBrace)

def colon (cs : List Char) : Except Stop (List Char) :=
  match skipSpace cs with
  | [] => .error (.before [] .endInObject)
  | ':' :: rest => .ok rest
  | cs => .error (.on cs .expectedColon)

/-- The closing bracket of a list that holds no more than was asked for. -/
def closeList (cs : List Char) : Except Stop (List Char) :=
  match skipSpace cs with
  | [] => .error (.before [] .endInList)
  | ']' :: rest => .ok rest
  | ',' :: rest =>
    match skipSpace rest with
    | ']' :: rest => .error (.before rest .trailingComma)
    | rest => .error (.on rest .trailingCharacters)
  | cs => .error (.on cs .trailingCharacters)

/-- The closing brace of an object that holds no more than was asked for. -/
def closeObject (cs : List Char) : Except Stop (List Char) :=
  match skipSpace cs with
  | [] => .error (.before [] .endInObject)
  | '\x7d' :: rest => .ok rest
  | ',' :: rest => .error (.before rest .trailingComma)
  | cs => .error (.on cs .trailingCharacters)

/-- All items of a list, up to its bracket. -/
def items {α : Type} (item : Reads α) : Nat → Bool → Reads (List α)
  | 0, _, cs => .error (.before cs .endInList)
  | fuel + 1, first, cs => do
    match ← nextItem first cs with
    | (false, rest) => .ok ([], rest)
    | (true, rest) =>
      let (x, rest) ← item rest
      let (xs, rest) ← items item fuel false rest
      .ok (x :: xs, rest)

/--
All members of an object, up to its brace. `onName` sees a name before the colon is read, so
that it may refuse it there, when what follows the name has been looked at; what it answers
reads the member's value.
-/
def members {σ : Type} (onName : σ → String → Except Cause (Reads σ)) :
    Nat → Bool → σ → Reads σ
  | 0, _, _, cs => .error (.before cs .endInObject)
  | fuel + 1, first, s, cs => do
    match ← nextName first cs with
    | (none, rest) => .ok (s, rest)
    | (some name, rest) =>
      let member ← (onName s name).mapError (Stop.on (skipSpace rest))
      let (s, rest) ← member (← colon rest)
      members onName fuel false s rest

/-- A list whose opening bracket has been read. -/
def list {α : Type} (item : Reads α) : Reads (List α) := fun cs => do
  let (xs, rest) ← items item (cs.length + 1) true cs
  .ok (xs, ← closeList rest)

/-- An object whose opening brace has been read. -/
def object {σ : Type} (onName : σ → String → Except Cause (Reads σ)) (start : σ) : Reads σ :=
  fun cs => do
    let (s, rest) ← members onName (cs.length + 1) true start cs
    .ok (s, ← closeObject rest)

/-! ## Values that are kept -/

/-- A list or an object opens, and takes up room. -/
def nested {α : Type} (room : Nat) (inside : Nat → Reads α) : Reads α := fun cs =>
  match room with
  | 0 => .error (.before cs .recursionLimit)
  | room + 1 => inside room cs

/-- How many lists and objects may stand inside one another in a text. -/
def maxDepth : Nat := 127

/-- A word that stands for a value, behind its first letter. -/
def word (letters : List Char) (j : Json) : Reads Json := fun cs => do .ok (j, ← ident letters cs)

/-- A value that holds no others. -/
def scalar (c : Char) : Reads Json := fun cs =>
  if c = 'n' then word ['u', 'l', 'l'] .null cs
  else if c = 't' then word ['r', 'u', 'e'] (.bool true) cs
  else if c = 'f' then word ['a', 'l', 's', 'e'] (.bool false) cs
  else if c = '-' then number true cs
  else if c.isDigit then number false (c :: cs)
  else if c = '"' then do
    let (s, rest) ← stringTail cs
    .ok (.str s, rest)
  else .error (.on (c :: cs) .expectedValue)

def value : Nat → Reads Json := fun room cs =>
  match skipSpace cs with
  | [] => .error (.before [] .endInValue)
  | c :: rest =>
    if c = '[' then
      match room with
      | 0 => .error (.before rest .recursionLimit)
      | room + 1 => do
        let (xs, rest) ← list (value room) rest
        .ok (.arr xs, rest)
    else if c = '\x7b' then
      match room with
      | 0 => .error (.before rest .recursionLimit)
      | room + 1 => do
        let (fields, rest) ← object
          (fun fields name => .ok fun cs => do
            let (v, rest) ← value room cs
            .ok (setField name v fields, rest)) [] rest
        .ok (.obj fields, rest)
    else scalar c rest

/-! ## Values that are refused -/

/-- What a value looks like to a reader that expected something else. -/
def shape : Json → Found
  | .null => .null
  | .bool b => .bool b
  | .int n => .integer n
  | .decimal d => .decimal d
  | .str s => .text s
  | .arr _ => .sequence
  | .obj _ => .map

/-- Stops behind a value that holds no others. A number ends only where what follows is seen. -/
def Stop.after (j : Json) (rest : List Char) (c : Cause) : Stop :=
  match j with
  | .int _ | .decimal _ => .on rest c
  | _ => .before rest c

/-- Stops at a value that is not of the expected shape. A list or an object is not gone into. -/
def mismatch {α : Type} (expected : String) : Reads α := fun cs =>
  match cs with
  | [] => .error (.before [] .expectedValue)
  | c :: rest =>
    if c = '[' then .error (.before rest (.invalidType .sequence expected))
    else if c = '\x7b' then .error (.before rest (.invalidType .map expected))
    else do
      let (j, rest) ← scalar c rest
      .error (.after j rest (.invalidType j.shape expected))

/-- Reads all of a text with a reader that is given the room of a whole text. -/
def whole {α : Type} (read : Nat → Reads α) (s : String) : Except Fault α :=
  let outcome := do
    let (x, rest) ← read maxDepth s.toList
    match skipSpace rest with
    | [] => .ok x
    | rest => .error (Stop.on rest .trailingCharacters)
  outcome.mapError fun stop => stop.fault s.toList

def ofText (s : String) : Except Fault Json := whole value s

end MachineKeeper.Json
