/-
  MachineKeeper.Daemon.Payload — what is sent to the daemon.

  An image reference whose prefix is a known remote is pulled from there; any other reference is
  an alias in the daemon's own image store, colons and all. Numbers go over the wire as text
  with their unit.
-/

import MachineKeeper.Backend.Request
import MachineKeeper.Json.Basic
import MachineKeeper.Text.Decimal

namespace MachineKeeper.Daemon

structure ImageSource where
  /-- The name of the image on its server. -/
  image : String
  /-- The server of a known remote. -/
  server : Option String
  deriving DecidableEq

namespace ImageSource

def remotes : List (String × String) :=
  [("images", "https://images.linuxcontainers.org"),
   ("ubuntu", "https://cloud-images.ubuntu.com/releases"),
   ("ubuntu-daily", "https://cloud-images.ubuntu.com/daily")]

def serverOf? (remote : List Char) : Option String :=
  (remotes.find? (·.1.toList = remote)).map (·.2)

def ofRef (image : String) : ImageSource :=
  let cs := image.toList
  let remote := cs.takeWhile (· ≠ ':')
  match cs.drop remote.length with
  | ':' :: rest =>
    match serverOf? remote with
    | some server => ⟨String.ofList rest, some server⟩
    | none => ⟨image, none⟩
  | _ => ⟨image, none⟩

def toJson (s : ImageSource) : Json :=
  .obj <|
    [("type", .str "image"), ("alias", .str s.image)] ++
      match s.server with
      | none => []
      | some server => [("server", .str server), ("protocol", .str "simplestreams")]

end ImageSource

/-- The body that asks for a new virtual machine, to be started at once. -/
def creation (r : InstanceRequest) : Json :=
  let text (n : Nat) (unit : String) : Json := .str (Text.decimal n ++ unit)
  .obj <|
    [("name", .str r.name),
     ("type", .str "virtual-machine"),
     ("start", .bool true),
     ("profiles", .arr [.str "default"]),
     ("config", .obj
       [("limits.cpu", text r.cpus.toNat ""),
        ("limits.memory", text r.memoryMib.toNat "MiB"),
        ("security.secureboot", .str "false")])] ++
      (match r.rootDiskGib with
      | none => []
      | some size =>
        [("devices", .obj
          [("root", .obj
            [("path", .str "/"),
             ("pool", .str "default"),
             ("size", text size.toNat "GiB"),
             ("type", .str "disk")])])]) ++
      [("source", (ImageSource.ofRef r.image).toJson)]

/-- The body that stops an instance by force. -/
def forcedStop : Json :=
  .obj [("action", .str "stop"), ("timeout", .int 30), ("force", .bool true)]

end MachineKeeper.Daemon
