/-
  MachineKeeper.Text.Bytes — the length of a text in bytes.
-/

namespace MachineKeeper.Text

/-- How many bytes the characters take up in UTF-8. -/
def byteCount : List Char → Nat
  | [] => 0
  | c :: cs => c.utf8Size + byteCount cs

end MachineKeeper.Text
