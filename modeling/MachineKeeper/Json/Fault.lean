/-
  MachineKeeper.Json.Fault — why a JSON text or value is refused, and where.

  A text can end too early, break the grammar, or hold a value of the wrong shape; the first
  such cause in reading order is the one reported. Its place is how far the reader had looked by
  then: the line, and the bytes of it that had been looked at. A value that has been read
  already has lost its place.
-/

import MachineKeeper.Json.Double
import MachineKeeper.Text.Bytes
import MachineKeeper.Text.Quoted

namespace MachineKeeper.Json

/-- What a value looks like to a reader that expected something else. -/
inductive Found where
  | null
  | bool (b : Bool)
  | integer (n : Int)
  | decimal (d : Double)
  | text (s : String)
  | sequence
  | map
  deriving DecidableEq

inductive Cause where
  | endInValue
  | endInObject
  | endInList
  | endInString
  | expectedValue
  | expectedIdent
  | expectedColon
  | expectedCommaOrBrace
  | expectedCommaOrBracket
  | keyNotString
  | trailingComma
  | trailingCharacters
  | invalidNumber
  | numberOutOfRange
  | invalidEscape
  | loneSurrogate
  | endOfHexEscape
  | controlCharacter
  | recursionLimit
  | invalidType (found : Found) (expected : String)
  | invalidValue (found : Found) (expected : String)
  | invalidLength (length : Nat) (expected : String)
  | missingField (name : String)
  | duplicateField (name : String)
  | unknownVariant (name : String) (known : List String)
  | refused (reason : String)
  deriving DecidableEq

/-- Whether the text ended too early, broke the grammar, or held the wrong data. -/
inductive Cause.Category where
  | ended
  | grammar
  | data
  deriving DecidableEq

def Found.message : Found → String
  | .null => "null"
  | .bool b => "boolean `" ++ (if b then "true" else "false") ++ "`"
  | .integer n => "integer `" ++ Text.intDecimal n ++ "`"
  | .decimal d => "floating point `" ++ String.ofList d.plain ++ "`"
  | .text s => "string " ++ Text.quoted s
  | .sequence => "sequence"
  | .map => "map"

namespace Cause

def category : Cause → Category
  | .endInValue | .endInObject | .endInList | .endInString => .ended
  | .expectedValue | .expectedIdent | .expectedColon | .expectedCommaOrBrace
  | .expectedCommaOrBracket | .keyNotString | .trailingComma | .trailingCharacters
  | .invalidNumber | .numberOutOfRange | .invalidEscape | .loneSurrogate | .endOfHexEscape
  | .controlCharacter | .recursionLimit => .grammar
  | .invalidType .. | .invalidValue .. | .invalidLength .. | .missingField .. | .duplicateField ..
  | .unknownVariant .. | .refused .. => .data

def message : Cause → String
  | .endInValue => "EOF while parsing a value"
  | .endInObject => "EOF while parsing an object"
  | .endInList => "EOF while parsing a list"
  | .endInString => "EOF while parsing a string"
  | .expectedValue => "expected value"
  | .expectedIdent => "expected ident"
  | .expectedColon => "expected `:`"
  | .expectedCommaOrBrace => "expected `,` or `\x7d`"
  | .expectedCommaOrBracket => "expected `,` or `]`"
  | .keyNotString => "key must be a string"
  | .trailingComma => "trailing comma"
  | .trailingCharacters => "trailing characters"
  | .invalidNumber => "invalid number"
  | .numberOutOfRange => "number out of range"
  | .invalidEscape => "invalid escape"
  | .loneSurrogate => "lone leading surrogate in hex escape"
  | .endOfHexEscape => "unexpected end of hex escape"
  | .controlCharacter => "control character (\\u0000-\\u001F) found while parsing a string"
  | .recursionLimit => "recursion limit exceeded"
  | .invalidType found expected => "invalid type: " ++ found.message ++ ", expected " ++ expected
  | .invalidValue found expected =>
    "invalid value: " ++ found.message ++ ", expected " ++ expected
  | .invalidLength n expected =>
    "invalid length " ++ Text.decimal n ++ ", expected " ++ expected
  | .missingField name => "missing field `" ++ name ++ "`"
  | .duplicateField name => "duplicate field `" ++ name ++ "`"
  | .unknownVariant name known =>
    "unknown variant `" ++ name ++ "`, expected one of " ++
      ", ".intercalate (known.map fun k => "`" ++ k ++ "`")
  | .refused reason => reason

end Cause

/-! ## Places -/

/-- A line, from one, and so many bytes of it. -/
structure Place where
  line : Nat
  column : Nat
  deriving DecidableEq

namespace Place

def start : Place := ⟨1, 0⟩

/-- The place so many bytes further on in the text. -/
def forth (p : Place) (bytes : Nat) : List Char → Place
  | [] => p
  | c :: cs =>
    if bytes = 0 then p
    else if c = '\n' then forth ⟨p.line + 1, 0⟩ (bytes - 1) cs
    else forth ⟨p.line, p.column + min bytes c.utf8Size⟩ (bytes - c.utf8Size) cs

def message (p : Place) : String :=
  " at line " ++ Text.decimal p.line ++ " column " ++ Text.decimal p.column

end Place

structure Fault where
  cause : Cause
  /-- None where a value is refused that has been read already. -/
  place : Option Place
  deriving DecidableEq

def Cause.unplaced (c : Cause) : Fault := ⟨c, none⟩

def Fault.message (f : Fault) : String :=
  f.cause.message ++ (f.place.map Place.message).getD ""

/-- How a reader stops: with a cause, and so many bytes that it has not looked at. -/
structure Stop where
  cause : Cause
  unread : Nat
  deriving DecidableEq

namespace Stop

/-- Nothing of the rest has been looked at. -/
def before (rest : List Char) (c : Cause) : Stop := ⟨c, Text.byteCount rest⟩

/-- The next byte has been looked at, if there is one. -/
def on (rest : List Char) (c : Cause) : Stop := ⟨c, Text.byteCount rest - 1⟩

def fault (s : Stop) (text : List Char) : Fault :=
  ⟨s.cause, some (Place.start.forth (Text.byteCount text - s.unread) text)⟩

end Stop

end MachineKeeper.Json
