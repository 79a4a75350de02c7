/-
  MachineKeeper.Daemon.Address — what may be asked for, and where.

  An instance name becomes one segment of a path, so it is held to the rules of a host name
  label: letters, digits and hyphens, no hyphen at either end, not digits alone, 63 at most. A
  path is checked against the characters a path and a query may have; from a `#` on it is not
  sent, and not looked at.

  Taken for granted is that a path which passes this check can be sent, however long it is.
-/

import MachineKeeper.Text.Bytes

namespace MachineKeeper.Daemon

/-- Letters and digits are those of ASCII. -/
def isLabelChar (c : Char) : Bool := c.isAlphanum || c == '-'

def validName (name : String) : Bool :=
  let cs := name.toList
  cs ≠ [] && Text.byteCount cs ≤ 63 && cs.all isLabelChar &&
    cs.head? ≠ some '-' && cs.getLast? ≠ some '-' && !cs.all Char.isDigit

namespace Path

def isPathChar (c : Char) : Bool :=
  let n := c.toNat
  n == 0x21 || (0x24 ≤ n && n ≤ 0x3b) || n == 0x3d || (0x40 ≤ n && n ≤ 0x5f) ||
    (0x61 ≤ n && n ≤ 0x7a) || c == '|' || c == '~' || c == '"' || c == '\x7b' || c == '\x7d'

def isQueryChar (c : Char) : Bool :=
  let n := c.toNat
  n == 0x21 || (0x24 ≤ n && n ≤ 0x3b) || n == 0x3d || (0x3f ≤ n && n ≤ 0x7e)

/-- The part of a path that is sent. -/
def sent (path : String) : String := String.ofList (path.toList.takeWhile (· ≠ '#'))

def valid (path : String) : Bool :=
  let cs := (sent path).toList
  cs.head? = some '/' && (cs.takeWhile (· ≠ '?')).all isPathChar &&
    ((cs.dropWhile (· ≠ '?')).drop 1).all isQueryChar

end Path

end MachineKeeper.Daemon
