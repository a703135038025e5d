import Mathlib.Data.List.Nodup
import Mathlib.Algebra.Group.Int
import Mathlib.Algebra.Group.Nat.Basic

/-!
# Identifiers, digests and blocks

The value types the modelled packages share: replica `ID`s and `View`s at the widths Go
declares them, 32-byte `Hash`es, the `IDSet` of a quorum signature's participants, and the
fields of `consensus.Block` that the carousel and the twins network read.
-/

namespace HotStuff

/-- `hotstuff.ID`. -/
abbrev ID := UInt32

/-- `consensus.View`. -/
abbrev View := UInt64

/-- `consensus.Hash`, a `[32]byte`. -/
@[ext] structure Hash where
  bytes : List UInt8
  length_bytes : bytes.length = 32
deriving DecidableEq

/-- The zero value of `consensus.Hash`. -/
def Hash.zero : Hash := ⟨List.replicate 32 0, List.length_replicate 32 0⟩

/-- `consensus.IDSet`, in the order `ForEach` visits it. -/
structure IDSet where
  ids : List ID
  nodup : ids.Nodup
deriving DecidableEq

namespace IDSet

/-- `consensus.NewIDSet()`. -/
def empty : IDSet := ⟨[], List.nodup_nil⟩

/-- `IDSet.Add`. -/
def add (s : IDSet) (id : ID) : IDSet := ⟨s.ids.insert id, s.nodup.insert⟩

/-- `IDSet.Contains`. -/
def contains (s : IDSet) (id : ID) : Bool := decide (id ∈ s.ids)

@[simp] theorem ids_empty : empty.ids = [] := rfl

@[simp] theorem mem_add {s : IDSet} {id i : ID} : i ∈ (s.add id).ids ↔ i = id ∨ i ∈ s.ids :=
  List.mem_insert_iff

theorem length_add_le (s : IDSet) (id : ID) : (s.add id).ids.length ≤ s.ids.length + 1 := by
  by_cases h : id ∈ s.ids
  · simp [add, List.length_insert_of_mem h]
  · simp [add, List.length_insert_of_not_mem h]

@[simp] theorem contains_iff {s : IDSet} {id : ID} : s.contains id = true ↔ id ∈ s.ids :=
  decide_eq_true_iff

end IDSet

/-- `consensus.QuorumSignature`, through its `Participants()`. -/
structure QuorumSignature where
  participants : IDSet
deriving DecidableEq

/-- `consensus.QuorumCert`, through its `Signature()`, which is `nil` before the first commit. -/
structure QuorumCert where
  signature : Option QuorumSignature
deriving DecidableEq

/-- The fields of `consensus.Block` the modelled code reads. -/
structure Block where
  hash : Hash
  parent : Hash
  proposer : ID
  view : View
  cert : QuorumCert
deriving DecidableEq

/-- `c + 1` on a `uint64` wraps at `2^64`. -/
theorem toNat_add_one (c : UInt64) : (c + 1).toNat = (c.toNat + 1) % 2 ^ 64 := by
  simp only [UInt64.toNat, UInt64.add_def, UInt64.one_def, BitVec.toNat_add]
  rfl

/-- Go's `int` on a 64-bit platform: arithmetic wraps into `[-2^63, 2^63)`. -/
def goInt (x : Int) : Int := x.bmod (2 ^ 64)

/-- A Go `string` or `[]byte`: its bytes. -/
abbrev Bytes := List UInt8

/-- The bytes of a Go string literal: its UTF-8 encoding. -/
def bytes (s : String) : Bytes := s.toUTF8.data.toList

end HotStuff
