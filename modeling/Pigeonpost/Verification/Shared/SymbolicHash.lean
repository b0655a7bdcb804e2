import Pigeonpost.Program.Checkpoint

/-! # A collision-free hash

Hashes as the terms that produce them. The log's leaf and node hashes are
injective here, so results that assume this can be instantiated. -/

namespace Pigeonpost

open List

/-- Hashes as terms, without collisions. -/
inductive SymbolicHash where
  | empty
  | leaf (data : Bytes)
  | node (left right : SymbolicHash)
  | other
deriving DecidableEq

instance : Sha256 SymbolicHash where
  digest
    | [] => .empty
    | [.bytes [0x00], .bytes data] => .leaf data
    | [.bytes [0x01], .hash left, .hash right] => .node left right
    | _ => .other

@[simp] theorem SymbolicHash.nodeHash_eq (left right : SymbolicHash) :
    nodeHash left right = .node left right := rfl

theorem SymbolicHash.nodeHash_injective2 : Function.Injective2 (nodeHash (H := SymbolicHash)) := by
  intro left left' right right' h
  exact ⟨by injection h, by injection h⟩

theorem SymbolicHash.leafHash_injective : Function.Injective (leafHash (H := SymbolicHash)) := by
  intro data data' h
  injection h

/-! ## Bytes of a term -/

namespace SymbolicHash

/-- Data with a mark before each byte and another behind the last. -/
def markBytes : Bytes → Bytes
  | [] => [0]
  | b :: rest => 1 :: b :: markBytes rest

def unmarkBytes : Bytes → Option (Bytes × Bytes)
  | 0 :: rest => some ([], rest)
  | 1 :: b :: rest => (unmarkBytes rest).map fun (data, rest) => (b :: data, rest)
  | _ => none

theorem unmarkBytes_markBytes (data rest : Bytes) :
    unmarkBytes (markBytes data ++ rest) = some (data, rest) := by
  induction data with
  | nil => rfl
  | cons _ _ ih => simp [markBytes, unmarkBytes, ih]

def toBytes : SymbolicHash → Bytes
  | empty => [0]
  | leaf data => 1 :: markBytes data
  | node left right => 2 :: (toBytes left ++ toBytes right)
  | other => [3]

/-- Reads one term off the front, with a bound on its depth. -/
def read : ℕ → Bytes → Option (SymbolicHash × Bytes)
  | _ + 1, 0 :: rest => some (empty, rest)
  | _ + 1, 1 :: rest => (unmarkBytes rest).map fun (data, rest) => (leaf data, rest)
  | fuel + 1, 2 :: rest => do
      let (left, rest) ← read fuel rest
      let (right, rest) ← read fuel rest
      return (node left right, rest)
  | _ + 1, 3 :: rest => some (other, rest)
  | _, _ => none

theorem read_toBytes (hash : SymbolicHash) (fuel : ℕ) (rest : Bytes)
    (h : hash.toBytes.length ≤ fuel) : read fuel (hash.toBytes ++ rest) = some (hash, rest) := by
  induction hash generalizing fuel rest with
  | empty | other =>
      obtain ⟨fuel, rfl⟩ := Nat.exists_eq_succ_of_ne_zero (by simp [toBytes] at h; omega : fuel ≠ 0)
      rfl
  | leaf =>
      obtain ⟨fuel, rfl⟩ := Nat.exists_eq_succ_of_ne_zero (by simp [toBytes] at h; omega : fuel ≠ 0)
      simp [toBytes, read, unmarkBytes_markBytes]
  | node _ _ ihl ihr =>
      obtain ⟨fuel, rfl⟩ := Nat.exists_eq_succ_of_ne_zero (by simp [toBytes] at h; omega : fuel ≠ 0)
      simp only [toBytes, length_cons, length_append] at h
      simp only [toBytes, cons_append, append_assoc, read]
      rw [ihl fuel _ (by omega)]
      simp [ihr fuel rest (by omega)]

instance : HashBytes SymbolicHash where
  toBytes := toBytes
  ofBytes bytes := (read bytes.length bytes).map Prod.fst
  ofBytes_toBytes hash := by
    have hread := read_toBytes hash hash.toBytes.length [] le_rfl
    rw [List.append_nil] at hread
    simp [hread]

end SymbolicHash

end Pigeonpost
