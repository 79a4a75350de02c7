/-
  MachineKeeper.Settings — the keeper's settings, from named variables.

  Both intervals are whole numbers of seconds, at least one, with blanks around them and a plus
  sign in front if one likes. The resync interval is read first, so of two bad intervals it is
  the one complained about.
-/

import MachineKeeper.Text.Blank
import MachineKeeper.Text.Decimal
import MachineKeeper.Text.Quoted

namespace MachineKeeper

structure Settings where
  socketPath : String
  dataDir : String
  /-- Seconds between two passes over the store. -/
  resyncInterval : UInt64
  /-- Seconds that one reconcile may take. -/
  reconcileTimeout : UInt64
  logLevel : String
  deriving DecidableEq

/-- Why a text is no number of seconds. -/
inductive NumberFault where
  | empty
  | invalidDigit
  | overflow
  deriving DecidableEq

def NumberFault.message : NumberFault → String
  | .empty => "cannot parse integer from empty string"
  | .invalidDigit => "invalid digit found in string"
  | .overflow => "number too large to fit in target type"

inductive SettingsFault where
  | notSeconds (name given : String) (why : NumberFault)
  | zero (name : String)
  deriving DecidableEq

namespace SettingsFault

def message : SettingsFault → String
  | .notSeconds name given _ =>
    name ++ " must be a whole number of seconds, got " ++ Text.quoted given
  | .zero name => name ++ " must be greater than zero"

/-- The message and what lies behind it, outermost first. -/
def chain : SettingsFault → List String
  | .notSeconds name given why => [message (.notSeconds name given why), why.message]
  | .zero name => [message (.zero name)]

end SettingsFault

namespace Settings

def defaultSocketPath : String := "/var/lib/incus/unix.socket"

def defaultDataDir : String := "/var/lib/capi-incus"

def defaultLogLevel : String := "info"

def defaultResyncInterval : UInt64 := 30

def defaultReconcileTimeout : UInt64 := 600

/-- Digits from the left: a bad one is found before the number gets too large behind it. -/
def gatherDigits (n : Nat) : List Char → Except NumberFault Nat
  | [] => .ok n
  | c :: cs =>
    if !c.isDigit then .error .invalidDigit
    else
      let next := n * 10 + Text.digitValue c
      if next < UInt64.size then gatherDigits next cs else .error .overflow

/-- A 64-bit number with an optional plus sign. -/
def number (cs : List Char) : Except NumberFault Nat :=
  match cs with
  | [] => .error .empty
  | ['+'] => .error .invalidDigit
  | '+' :: cs => gatherDigits 0 cs
  | cs => gatherDigits 0 cs

def seconds (lookup : String → Option String) (name : String) (default : UInt64) :
    Except SettingsFault UInt64 :=
  match lookup name with
  | none => .ok default
  | some given =>
    match number (Text.trim given.toList) with
    | .error why => .error (.notSeconds name given why)
    | .ok 0 => .error (.zero name)
    | .ok n => .ok (UInt64.ofNat n)

/-- The value of a variable that must not be empty. -/
def nonempty (lookup : String → Option String) (name default : String) : String :=
  ((lookup name).filter (· ≠ "")).getD default

def read (lookup : String → Option String) : Except SettingsFault Settings := do
  let resync ← seconds lookup "CAPI_INCUS_RESYNC_INTERVAL" defaultResyncInterval
  let timeout ← seconds lookup "CAPI_INCUS_RECONCILE_TIMEOUT" defaultReconcileTimeout
  .ok {
    socketPath := nonempty lookup "INCUS_SOCKET" defaultSocketPath
    dataDir := nonempty lookup "CAPI_INCUS_DATA_DIR" defaultDataDir
    resyncInterval := resync
    reconcileTimeout := timeout
    logLevel := (lookup "CAPI_INCUS_LOG_LEVEL").getD defaultLogLevel }

/-- Where the objects are kept, inside the data directory. -/
def storePath (s : Settings) : String :=
  if s.dataDir = "" then "objects.db"
  else if s.dataDir.toList.getLast? = some '/' then s.dataDir ++ "objects.db"
  else s.dataDir ++ "/objects.db"

end Settings

end MachineKeeper
