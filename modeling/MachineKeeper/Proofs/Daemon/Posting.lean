/-
  MachineKeeper.Proofs.Daemon.Posting — what the body for a new instance says, it says for good.

  From a spec to the request: a number that makes sense is taken as it is, over the whole range of
  its type, and any other one is replaced (`Resolved`). From the request to the wire: the body is a
  record (`Posting`) with a codec of its own, so its text is read back by the laws of records, and
  every field of the request can be told from that of the body. The numbers are what stands before their unit,
  and an image is looked up by the server it is pulled from; no two remotes share one.

  Proved:
  - `resolved_ofSpec`: what becomes of a spec.
  - `ref?_ofRef`: an image reference is recovered from its source, colons and all.
  - `Posting.request?_of`, `read_creation`: the request is recovered from the text of its body.
  - `wire_loses_nothing`: both, and so two requests never have one body.
-/

import MachineKeeper.Daemon.Payload
import MachineKeeper.Proofs.Object.Format

namespace MachineKeeper

open Json (Codec Fields)
open Json.Fields (lawful_required lawful_sparse)

/-! ## From a spec to a request -/

/-- The request has what the spec says, or the default where that makes no sense. -/
structure InstanceRequest.Resolved (name : String) (spec : MachineSpec) (r : InstanceRequest) : Prop where
  name : r.name = name
  image : r.image = if spec.image = "" then "images:ubuntu/24.04" else spec.image
  cpus : (r.cpus.toNat : Int) = if 1 ≤ spec.cpus.toInt then spec.cpus.toInt else 2
  memory : (r.memoryMib.toNat : Int) = if 1 ≤ spec.memoryMib.toInt then spec.memoryMib.toInt else 2048
  disk : r.rootDiskGib.map (fun size => (size.toNat : Int)) =
    if 0 < spec.rootDiskGib.toInt then some spec.rootDiskGib.toInt else none

/-- No number is cut on its way into an unsigned word. -/
theorem resolved_ofSpec (name : String) (spec : MachineSpec) :
    InstanceRequest.Resolved name spec (.ofSpec name spec) := by
  have hcpus := spec.cpus.toInt_lt
  have hmemory := spec.memoryMib.toInt_lt
  have hdisk := spec.rootDiskGib.toInt_lt
  refine ⟨rfl, rfl, ?_, ?_, ?_⟩
  · unfold InstanceRequest.ofSpec
    by_cases h : 1 ≤ spec.cpus.toInt
    · simp only [if_pos h, UInt32.toNat_ofNat']
      omega
    · simp only [if_neg h]
      rfl
  · unfold InstanceRequest.ofSpec
    by_cases h : 1 ≤ spec.memoryMib.toInt
    · simp only [if_pos h, UInt64.toNat_ofNat']
      omega
    · simp only [if_neg h]
      rfl
  · unfold InstanceRequest.ofSpec
    by_cases h : 0 < spec.rootDiskGib.toInt
    · simp only [if_pos h, Option.map_some, UInt32.toNat_ofNat', Option.some.injEq]
      omega
    · simp only [if_neg h, Option.map_none]

namespace Daemon

/-! ## The body as a record -/

structure Limits where
  cpus : String
  memory : String
  secureBoot : String
  deriving DecidableEq

structure RootDisk where
  path : String
  pool : String
  size : String
  type : String
  deriving DecidableEq

/-- Where an image is pulled from. -/
structure Pull where
  type : String
  image : String
  server : Option String
  protocol : Option String
  deriving DecidableEq

/-- What is posted for a new instance. -/
structure Posting where
  name : String
  type : String
  start : Bool
  profiles : List String
  limits : Limits
  rootDisk : Option RootDisk
  source : Pull
  deriving DecidableEq

def flag : Codec Bool :=
  Codec.leaf "a boolean"
    (fun
      | .bool b => .ok b
      | j => .error (.invalidType j.shape "a boolean"))
    .bool

def Limits.codec : Codec Limits :=
  Codec.record "Limits"
    (.cons (.required "limits.cpu" .string) <|
     .cons (.required "limits.memory" .string) <|
     .cons (.required "security.secureboot" .string) .nil)
    (fun (cpus, memory, secureBoot, ()) => ⟨cpus, memory, secureBoot⟩)
    (fun l => (l.cpus, l.memory, l.secureBoot, ()))

def RootDisk.codec : Codec RootDisk :=
  Codec.record "RootDisk"
    (.cons (.required "path" .string) <|
     .cons (.required "pool" .string) <|
     .cons (.required "size" .string) <|
     .cons (.required "type" .string) .nil)
    (fun (path, pool, size, type, ()) => ⟨path, pool, size, type⟩)
    (fun d => (d.path, d.pool, d.size, d.type, ()))

/-- The only device there may be is the root disk. -/
def devices : Codec RootDisk :=
  Codec.record "Devices" (.cons (.required "root" RootDisk.codec) .nil) (fun (d, ()) => d) (fun d => (d, ()))

def Pull.codec : Codec Pull :=
  Codec.record "Source"
    (.cons (.required "type" .string) <|
     .cons (.required "alias" .string) <|
     .cons (.sparse "server" (.optional .string) none) <|
     .cons (.sparse "protocol" (.optional .string) none) .nil)
    (fun (type, image, server, protocol, ()) => ⟨type, image, server, protocol⟩)
    (fun p => (p.type, p.image, p.server, p.protocol, ()))

def Posting.codec : Codec Posting :=
  Codec.record "Posting"
    (.cons (.required "name" .string) <|
     .cons (.required "type" .string) <|
     .cons (.required "start" flag) <|
     .cons (.required "profiles" (.list .string)) <|
     .cons (.required "config" Limits.codec) <|
     .cons (.sparse "devices" (.optional devices) none) <|
     .cons (.required "source" Pull.codec) .nil)
    (fun (name, type, start, profiles, limits, rootDisk, source, ()) =>
      ⟨name, type, start, profiles, limits, rootDisk, source⟩)
    (fun p => (p.name, p.type, p.start, p.profiles, p.limits, p.rootDisk, p.source, ()))

theorem lawful_flag : flag.Lawful 0 := by
  apply Codec.Lawful.leaf
  · intro b
    cases b with
    | true => exact ⟨'t', _, rfl, by unfold Json.Begins; decide, fun rest _ => rfl⟩
    | false => exact ⟨'f', _, rfl, by unfold Json.Begins; decide, fun rest _ => rfl⟩
  · intro b
    rfl

theorem lawful_optionalString : (Codec.optional .string).Lawful 0 := by
  refine .optional .string ?_
  intro s cs h
  cases h

theorem Limits.lawful : Limits.codec.Lawful 1 :=
  .record (lawful_required .string (by decide) <| lawful_required .string (by decide) <|
    lawful_required .string (by decide) trivial) fun _ => rfl

theorem RootDisk.lawful : RootDisk.codec.Lawful 1 :=
  .record (lawful_required .string (by decide) <| lawful_required .string (by decide) <|
    lawful_required .string (by decide) <| lawful_required .string (by decide) trivial) fun _ => rfl

theorem lawful_devices : (Codec.optional devices).Lawful 2 := by
  have hdevices : devices.Lawful 2 := .record (lawful_required RootDisk.lawful (by decide) trivial) fun _ => rfl
  refine .optional hdevices ?_
  intro d cs h
  cases h

theorem Pull.lawful : Pull.codec.Lawful 1 :=
  .record (lawful_required .string (by decide) <| lawful_required .string (by decide) <|
    lawful_sparse lawful_optionalString (by decide) <| lawful_sparse lawful_optionalString (by decide) trivial)
    fun _ => rfl

theorem Posting.lawful : Posting.codec.Lawful 3 :=
  .record (lawful_required (Codec.Lawful.string.mono (Nat.zero_le 2)) (by decide) <|
    lawful_required (Codec.Lawful.string.mono (Nat.zero_le 2)) (by decide) <|
    lawful_required (lawful_flag.mono (Nat.zero_le 2)) (by decide) <|
    lawful_required ((Codec.Lawful.list .string).mono (by decide)) (by decide) <|
    lawful_required (Limits.lawful.mono (by decide)) (by decide) <|
    lawful_sparse lawful_devices (by decide) <|
    lawful_required (Pull.lawful.mono (by decide)) (by decide) trivial) fun _ => rfl

/-! ## From a request to its body, and back -/

/-- A number with its unit. -/
def measured (n : Nat) (unit : String) : String := Text.decimal n ++ unit

/-- The number that stands before a unit. -/
def measure (s : String) : Nat := Text.value (s.toList.takeWhile Char.isDigit)

theorem measure_measured (n : Nat) {unit : String} (hunit : unit.toList.takeWhile Char.isDigit = []) :
    measure (measured n unit) = n := by
  have hdigits : ∀ c ∈ Text.digits n, c.isDigit = true := fun c hc => Text.isDigit_of_mem_digits hc
  unfold measure measured Text.decimal
  rw [String.toList_append, String.toList_ofList, List.takeWhile_append_of_pos hdigits, hunit, List.append_nil,
    Text.value_digits]

namespace ImageSource

/-- The remote that pulls from this server. -/
def remoteOf? (server : String) : Option String := (remotes.find? (·.2 = server)).map (·.1)

/-- The reference that leads to a source. -/
def ref? (s : ImageSource) : Option String :=
  match s.server with
  | none => some s.image
  | some server => (remoteOf? server).map fun remote => remote ++ ":" ++ s.image

/-- No two remotes share a server. -/
theorem remoteOf?_of_serverOf? {remote : List Char} {server : String} (h : serverOf? remote = some server) :
    remoteOf? server = some (String.ofList remote) := by
  unfold serverOf? at h
  obtain ⟨entry, hentry, rfl⟩ := Option.map_eq_some_iff.mp h
  have hremote : entry.1.toList = remote := by simpa using List.find?_some hentry
  have hmem := List.mem_of_find?_eq_some hentry
  rw [← hremote, String.ofList_toList]
  simp only [remotes, List.mem_cons, List.not_mem_nil, or_false] at hmem
  rcases hmem with rfl | rfl | rfl <;> decide

theorem ref?_ofRef (image : String) : (ofRef image).ref? = some image := by
  unfold ofRef
  dsimp only
  split
  · next rest hrest =>
    split
    · next server hserver =>
      have hsplit : image.toList.takeWhile (· ≠ ':') ++ ':' :: rest = image.toList := by
        rw [← hrest]
        exact List.prefix_iff_eq_append.mp (List.takeWhile_prefix _)
      simp only [ref?, remoteOf?_of_serverOf? hserver, Option.map_some, Option.some.injEq]
      rw [← String.toList_inj]
      simp only [String.toList_append, String.toList_ofList]
      rw [List.append_assoc]
      exact hsplit
    · rfl
  · rfl

/-- A known remote and a local alias of the same name are told apart, also where there are more colons. -/
example : ["images:x", "x", "images:x:y", "elsewhere:x", ":x"].map ofRef =
    [⟨"x", some "https://images.linuxcontainers.org"⟩, ⟨"x", none⟩, ⟨"x:y", some "https://images.linuxcontainers.org"⟩,
      ⟨"elsewhere:x", none⟩, ⟨":x", none⟩] := by decide

end ImageSource

namespace Posting

/-- What is posted for a request. -/
def of (r : InstanceRequest) : Posting where
  name := r.name
  type := "virtual-machine"
  start := true
  profiles := ["default"]
  limits := ⟨measured r.cpus.toNat "", measured r.memoryMib.toNat "MiB", "false"⟩
  rootDisk := r.rootDiskGib.map fun size => ⟨"/", "default", measured size.toNat "GiB", "disk"⟩
  source :=
    let source := ImageSource.ofRef r.image
    ⟨"image", source.image, source.server, source.server.map fun _ => "simplestreams"⟩

/-- The body is that record. -/
theorem encode_of (r : InstanceRequest) : codec.encode (of r) = creation r := by
  obtain ⟨name, image, cpus, memory, disk⟩ := r
  have hsource : ∀ s : ImageSource, Pull.codec.encode ⟨"image", s.image, s.server, s.server.map fun _ => "simplestreams"⟩ =
      s.toJson := by
    intro s
    obtain ⟨image, server⟩ := s
    cases server <;> rfl
  unfold creation
  rw [← hsource]
  cases disk <;> rfl

/-- The request that this is posted for. -/
def request? (p : Posting) : Option InstanceRequest :=
  (ImageSource.ref? ⟨p.source.image, p.source.server⟩).map fun image =>
    { name := p.name
      image := image
      cpus := UInt32.ofNat (measure p.limits.cpus)
      memoryMib := UInt64.ofNat (measure p.limits.memory)
      rootDiskGib := p.rootDisk.map fun disk => UInt32.ofNat (measure disk.size) }

theorem request?_of (r : InstanceRequest) : (of r).request? = some r := by
  obtain ⟨name, image, cpus, memory, disk⟩ := r
  have hcpus : measure (measured cpus.toNat "") = cpus.toNat := measure_measured _ rfl
  have hmemory : measure (measured memory.toNat "MiB") = memory.toNat := measure_measured _ rfl
  have hdisk : ∀ size : UInt32, measure (measured size.toNat "GiB") = size.toNat :=
    fun size => measure_measured _ rfl
  have himage : ImageSource.ref? ⟨(ImageSource.ofRef image).image, (ImageSource.ofRef image).server⟩ = some image :=
    ImageSource.ref?_ofRef image
  simp only [request?, of, himage, Option.map_some, hcpus, hmemory, UInt32.ofNat_toNat,
    UInt64.ofNat_toNat, Option.map_map, Function.comp_def, hdisk, Option.map_id']

end Posting

/-- The request, by the text of its body. -/
def requestOfBody? (body : String) : Option InstanceRequest :=
  match Posting.codec.ofText body with
  | .error _ => none
  | .ok p => p.request?

theorem requestOfBody?_creation (r : InstanceRequest) : requestOfBody? (creation r).text = some r := by
  have hread : Posting.codec.ofText (creation r).text = .ok (.of r) := by
    rw [← Posting.encode_of]
    exact Posting.lawful.ofText_text (by decide) (.of r)
  unfold requestOfBody?
  rw [hread]
  exact Posting.request?_of r

/-- A request has what the spec says, with a default for each number or image that makes no sense. And it is recovered from
the text of the body that is posted for it, so two requests never have the same one. -/
theorem wire_loses_nothing :
    (∀ name spec, InstanceRequest.Resolved name spec (.ofSpec name spec)) ∧
      (∀ r, requestOfBody? (creation r).text = some r) ∧
      Function.Injective fun r => (creation r).text := by
  refine ⟨resolved_ofSpec, requestOfBody?_creation, ?_⟩
  intro r r' h
  have hsame : (creation r).text = (creation r').text := h
  have hrequest := requestOfBody?_creation r
  rw [hsame, requestOfBody?_creation] at hrequest
  exact (Option.some.inj hrequest).symm

end Daemon

end MachineKeeper
