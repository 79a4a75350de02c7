/-
  MachineKeeper.Json.Writer — the compact text of a JSON value.

  No blanks between tokens. In strings only quotes, backslashes and control characters below
  the space are escaped; everything else is written as it is.
-/

import MachineKeeper.Json.Basic
import MachineKeeper.Text.Decimal
import MachineKeeper.Text.Quoted

namespace MachineKeeper.Json

def escapeChar (c : Char) : List Char :=
  if c = '"' then ['\\', '"']
  else if c = '\\' then ['\\', '\\']
  else if c = '\x08' then ['\\', 'b']
  else if c = '\x0c' then ['\\', 'f']
  else if c = '\n' then ['\\', 'n']
  else if c = '\r' then ['\\', 'r']
  else if c = '\t' then ['\\', 't']
  else if c.toNat < 0x20 then
    ['\\', 'u', '0', '0', Text.hexDigit (c.toNat / 16), Text.hexDigit (c.toNat % 16)]
  else [c]

def writeString (s : String) : List Char := '"' :: (s.toList.flatMap escapeChar ++ ['"'])

/-- The items one after another with commas between. -/
def commaJoin : List (List Char) → List Char
  | [] => []
  | [x] => x
  | x :: y :: rest => x ++ ',' :: commaJoin (y :: rest)

def writeField (name : String) (value : List Char) : List Char := writeString name ++ ':' :: value

mutual

def write : Json → List Char
  | .null => ['n', 'u', 'l', 'l']
  | .bool true => ['t', 'r', 'u', 'e']
  | .bool false => ['f', 'a', 'l', 's', 'e']
  | .int n => Text.intDigits n
  | .decimal d => d.compact
  | .str s => writeString s
  | .arr items => '[' :: (commaJoin (writeItems items) ++ [']'])
  | .obj fields => '\x7b' :: (commaJoin (writeFields fields) ++ ['\x7d'])

def writeItems : List Json → List (List Char)
  | [] => []
  | j :: rest => write j :: writeItems rest

def writeFields : List (String × Json) → List (List Char)
  | [] => []
  | (name, j) :: rest => writeField name (write j) :: writeFields rest

end

def text (j : Json) : String := String.ofList j.write

end MachineKeeper.Json
