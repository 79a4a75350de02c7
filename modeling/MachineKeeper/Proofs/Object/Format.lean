/-
  MachineKeeper.Proofs.Object.Format — objects are read back from their own text.

  The codec of an object is put together from those of its parts, and so is its law. A machine
  or a cluster takes four lists and objects inside one another, far from as many as there is room
  for.

  Proved:
  - `read_write`: reading the text of an object gives that object, whatever its fields hold.
  - `text_loses_nothing`: so it does for both kinds, and a text that has been read once, however it
    was spelled, gives the same object when that is written and read again.
-/

import MachineKeeper.Object.Format
import MachineKeeper.Proofs.Json.Record
import MachineKeeper.Proofs.Timestamp.ReadBack

namespace MachineKeeper

open Json (Codec FieldCodec Fields)

/-! ## Numbers and times -/

theorem lawful_int32 : Codec.int32.Lawful 0 := by
  refine Codec.Lawful.integer (fun a => ?_) fun a => ?_
  · have hlow := a.le_toInt
    have hhigh := a.toInt_lt
    have hsize : UInt64.size = 18446744073709551616 := rfl
    omega
  · have hlow := a.le_toInt
    have hhigh := a.toInt_lt
    have hrange : -2147483648 ≤ a.toInt ∧ a.toInt ≤ 2147483647 := by omega
    rw [if_pos hrange, Int32.ofInt_toInt]

theorem lawful_int64 : Codec.int64.Lawful 0 := by
  refine Codec.Lawful.integer (fun a => ?_) fun a => ?_
  · have hlow := a.le_toInt
    have hhigh := a.toInt_lt
    have hsize : UInt64.size = 18446744073709551616 := rfl
    omega
  · have hlow := a.le_toInt
    have hhigh := a.toInt_lt
    have hrange : -9223372036854775808 ≤ a.toInt ∧ a.toInt ≤ 9223372036854775807 := by omega
    rw [if_pos hrange, Int64.ofInt_toInt]

theorem lawful_uint64 : Codec.uint64.Lawful 0 := by
  refine Codec.Lawful.integer (fun a => ?_) fun a => ?_
  · have hhigh := a.toNat_lt_size
    omega
  · have hhigh := a.toNat_lt_size
    have hrange : (0 : Int) ≤ a.toNat ∧ (a.toNat : Int) < UInt64.size := by omega
    rw [if_pos hrange, Int.toNat_natCast, UInt64.ofNat_toNat]

theorem lawful_timestamp : Codec.timestamp.Lawful 0 := by
  unfold Codec.timestamp
  refine Codec.Lawful.leaf (fun t => Json.back_str (Timestamp.text t)) fun t => ?_
  simp only [Timestamp.ofText_text]

/-! ## Fields -/

namespace Json

variable {α σ : Type} {depth : Nat}

theorem Fields.lawful_required {name : String} {c : Codec α} {rest : Fields σ} (hc : c.Lawful depth)
    (hname : name ∉ rest.names) (hrest : rest.Lawful depth) :
    (Fields.cons (.required name c) rest).Lawful depth := ⟨hc, fun _ h => Bool.noConfusion h, hname, hrest⟩

theorem Fields.lawful_withDefault {name : String} {c : Codec α} {absent : α} {rest : Fields σ} (hc : c.Lawful depth)
    (hname : name ∉ rest.names) (hrest : rest.Lawful depth) :
    (Fields.cons (.withDefault name c absent) rest).Lawful depth := ⟨hc, fun _ h => Bool.noConfusion h, hname, hrest⟩

theorem Fields.lawful_sparse [DecidableEq α] {name : String} {c : Codec α} {absent : α} {rest : Fields σ}
    (hc : c.Lawful depth) (hname : name ∉ rest.names) (hrest : rest.Lawful depth) :
    (Fields.cons (.sparse name c absent) rest).Lawful depth :=
  ⟨hc, fun _ h => congrArg some (of_decide_eq_true h).symm, hname, hrest⟩

end Json

open Json.Fields (lawful_required lawful_withDefault lawful_sparse)

/-! ## The parts of an object -/

theorem ConditionStatus.lawful : ConditionStatus.codec.Lawful 0 := by
  refine Codec.Lawful.variant fun a => ?_
  cases a <;> rfl

theorem Condition.lawful : Condition.codec.Lawful 1 :=
  .record (lawful_required .string (by decide) <| lawful_required ConditionStatus.lawful (by decide) <|
    lawful_withDefault lawful_int64 (by decide) <| lawful_required lawful_timestamp (by decide) <|
    lawful_required .string (by decide) <| lawful_withDefault .string (by decide) trivial) fun _ => rfl

theorem lawful_optionalTimestamp : (Codec.optional .timestamp).Lawful 0 := by
  refine .optional lawful_timestamp fun t cs h => ?_
  cases h

theorem Metadata.lawful : Metadata.codec.Lawful 2 :=
  .record (lawful_required (Codec.Lawful.string.mono (Nat.zero_le 1)) (by decide) <|
    lawful_withDefault (Codec.Lawful.string.mono (Nat.zero_le 1)) (by decide) <|
    lawful_withDefault (Codec.Lawful.string.mono (Nat.zero_le 1)) (by decide) <|
    lawful_withDefault (lawful_uint64.mono (Nat.zero_le 1)) (by decide) <|
    lawful_withDefault (lawful_int64.mono (Nat.zero_le 1)) (by decide) <|
    lawful_sparse (lawful_optionalTimestamp.mono (Nat.zero_le 1)) (by decide) <|
    lawful_sparse (lawful_optionalTimestamp.mono (Nat.zero_le 1)) (by decide) <|
    lawful_sparse (.list .string) (by decide) trivial) fun _ => rfl

theorem MachineSpec.lawful : MachineSpec.codec.Lawful 1 :=
  .record (lawful_withDefault .string (by decide) <| lawful_withDefault lawful_int32 (by decide) <|
    lawful_withDefault lawful_int64 (by decide) <| lawful_sparse lawful_int32 (by decide) trivial) fun _ => rfl

theorem MachineStatus.lawful : MachineStatus.codec.Lawful 3 :=
  .record (lawful_sparse (.list Condition.lawful) (by decide) <|
    lawful_sparse (Codec.Lawful.string.mono (Nat.zero_le 2)) (by decide) trivial) fun _ => rfl

theorem ClusterSpec.lawful : ClusterSpec.codec.Lawful 1 :=
  .record (lawful_sparse .string (by decide) trivial) fun _ => rfl

theorem ClusterStatus.lawful : ClusterStatus.codec.Lawful 3 :=
  .record (lawful_sparse (.list Condition.lawful) (by decide) trivial) fun _ => rfl

theorem Spec.lawful : (k : Kind) → (Spec.codec k).Lawful 3
  | .machine => MachineSpec.lawful.mono (by decide)
  | .cluster => ClusterSpec.lawful.mono (by decide)

theorem Status.lawful : (k : Kind) → (Status.codec k).Lawful 3
  | .machine => MachineStatus.lawful
  | .cluster => ClusterStatus.lawful

/-! ## Objects -/

namespace Object

theorem lawful (k : Kind) : (Object.codec k).Lawful 4 :=
  have hspec : "spec" ∉ ["status"] := by decide
  have hmetadata : "metadata" ∉ ["spec", "status"] := by decide
  .record (lawful_required (Metadata.lawful.mono (by decide)) hmetadata <|
    lawful_withDefault (Spec.lawful k) hspec <| lawful_withDefault (Status.lawful k) (by decide) trivial)
    fun _ => rfl

theorem read_write {k : Kind} (o : Object k) : (Object.codec k).ofText ((Object.codec k).text o) = .ok o :=
  (lawful k).ofText_text (by decide) o

/-- Every object of either kind is read back from its own text. So writing what was read from any text, and
reading that, comes to what the text came to: the same object, or the same fault. -/
theorem text_loses_nothing (k : Kind) :
    (∀ o : Object k, (Object.codec k).ofText ((Object.codec k).text o) = .ok o) ∧
      ∀ s : String, (do (Object.codec k).ofText ((Object.codec k).text (← (Object.codec k).ofText s))) =
        (Object.codec k).ofText s := by
  refine ⟨read_write, fun s => ?_⟩
  cases (Object.codec k).ofText s with
  | error fault => rfl
  | ok o => simp only [bind, Except.bind, read_write]

end Object

end MachineKeeper
