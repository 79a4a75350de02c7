/-
  MachineKeeper.Json.Basic — JSON values.

  A number without fraction and exponent that fits 64 bits, signed or not, is an integer;
  every other number is held as a double. Fields of an object are in the order
  of their names, one field a name: `setField` keeps it so, and the last value of a repeated
  name wins.
-/

import MachineKeeper.Json.Double

namespace MachineKeeper

inductive Json where
  | null
  | bool (b : Bool)
  | int (n : Int)
  | decimal (d : Json.Double)
  | str (s : String)
  | arr (items : List Json)
  | obj (fields : List (String × Json))
  deriving Inhabited

namespace Json

def setField (name : String) (value : Json) : List (String × Json) → List (String × Json)
  | [] => [(name, value)]
  | (n, v) :: rest =>
    if name = n then (name, value) :: rest
    else if name < n then (name, value) :: (n, v) :: rest
    else (n, v) :: setField name value rest

def field? (j : Json) (name : String) : Option Json :=
  match j with
  | .obj fields => (fields.find? (·.1 == name)).map (·.2)
  | _ => none

end Json

end MachineKeeper
