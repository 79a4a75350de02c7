/-
  MachineKeeper.Object.Format — objects in JSON.

  Everything that has a natural default may be missing; what is empty and optional is left out
  when it is written.
-/

import MachineKeeper.Json.Record
import MachineKeeper.Object.Basic

namespace MachineKeeper

open Json (Codec FieldCodec Fields)

def Key.codec : Codec Key :=
  Codec.record "ObjectKey"
    (.cons (.required "namespace" .string) <|
     .cons (.required "name" .string) .nil)
    (fun (space, name, ()) => ⟨space, name⟩)
    (fun k => (k.space, k.name, ()))

def ConditionStatus.codec : Codec ConditionStatus :=
  Codec.variant [("True", .yes), ("False", .no), ("Unknown", .unknown)] ConditionStatus.text

def Condition.codec : Codec Condition :=
  Codec.record "Condition"
    (.cons (.required "type" .string) <|
     .cons (.required "status" ConditionStatus.codec) <|
     .cons (.withDefault "observedGeneration" .int64 0) <|
     .cons (.required "lastTransitionTime" .timestamp) <|
     .cons (.required "reason" .string) <|
     .cons (.withDefault "message" .string "") .nil)
    (fun (type, status, generation, time, reason, message, ()) =>
      ⟨type, status, generation, time, reason, message⟩)
    (fun c =>
      (c.type, c.status, c.observedGeneration, c.changedAt, c.reason, c.message, ()))

def Metadata.codec : Codec Metadata :=
  Codec.record "ObjectMeta"
    (.cons (.required "name" .string) <|
     .cons (.withDefault "namespace" .string "default") <|
     .cons (.withDefault "uid" .string "") <|
     .cons (.withDefault "resourceVersion" .uint64 0) <|
     .cons (.withDefault "generation" .int64 0) <|
     .cons (.sparse "creationTimestamp" (.optional .timestamp) none) <|
     .cons (.sparse "deletionTimestamp" (.optional .timestamp) none) <|
     .cons (.sparse "finalizers" (.list .string) []) .nil)
    (fun (name, space, uid, version, generation, created, deleted, finalizers, ()) =>
      ⟨name, space, uid, version, generation, created, deleted, finalizers⟩)
    (fun m =>
      (m.name, m.space, m.uid, m.resourceVersion, m.generation, m.createdAt, m.deletedAt,
        m.finalizers, ()))

def conditionsField : FieldCodec (List Condition) := .sparse "conditions" (.list Condition.codec) []

def MachineSpec.codec : Codec MachineSpec :=
  Codec.record "IncusMachineSpec"
    (.cons (.withDefault "image" .string "") <|
     .cons (.withDefault "cpus" .int32 0) <|
     .cons (.withDefault "memoryMiB" .int64 0) <|
     .cons (.sparse "rootDiskSizeGiB" .int32 0) .nil)
    (fun (image, cpus, memory, disk, ()) => ⟨image, cpus, memory, disk⟩)
    (fun s => (s.image, s.cpus, s.memoryMib, s.rootDiskGib, ()))

def MachineStatus.codec : Codec MachineStatus :=
  Codec.record "IncusMachineStatus"
    (.cons conditionsField <|
     .cons (.sparse "instanceId" .string "") .nil)
    (fun (conditions, instanceId, ()) => ⟨conditions, instanceId⟩)
    (fun s => (s.conditions, s.instanceId, ()))

def ClusterSpec.codec : Codec ClusterSpec :=
  Codec.record "IncusClusterSpec"
    (.cons (.sparse "network" .string "") .nil)
    (fun (network, ()) => ⟨network⟩)
    (fun s => (s.network, ()))

def ClusterStatus.codec : Codec ClusterStatus :=
  Codec.record "IncusClusterStatus"
    (.cons conditionsField .nil)
    (fun (conditions, ()) => ⟨conditions⟩)
    (fun s => (s.conditions, ()))

def Spec.codec : (k : Kind) → Codec (Spec k)
  | .machine => MachineSpec.codec
  | .cluster => ClusterSpec.codec

def Status.codec : (k : Kind) → Codec (Status k)
  | .machine => MachineStatus.codec
  | .cluster => ClusterStatus.codec

/-- The spec of an object that does not give one. -/
def Spec.blank : (k : Kind) → Spec k
  | .machine => ⟨"", 0, 0, 0⟩
  | .cluster => ⟨""⟩

def Status.blank : (k : Kind) → Status k
  | .machine => ⟨[], ""⟩
  | .cluster => ⟨[]⟩

def Object.codec (k : Kind) : Codec (Object k) :=
  Codec.record k.name
    (.cons (.required "metadata" Metadata.codec) <|
     .cons (.withDefault "spec" (Spec.codec k) (Spec.blank k)) <|
     .cons (.withDefault "status" (Status.codec k) (Status.blank k)) .nil)
    (fun (metadata, spec, status, ()) => ⟨metadata, spec, status⟩)
    (fun o => (o.metadata, o.spec, o.status, ()))

end MachineKeeper
