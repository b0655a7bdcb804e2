import Pigeonpost.Library.MerkleTree
import Pigeonpost.Program.Log

/-! # The log's root is the Merkle tree hash -/

namespace Pigeonpost

open MerkleTree List

/-! ## The split loop -/

theorem splitLoop_eq_splitPoint {n d : ℕ} (h : 2 ^ d < n) :
    splitLoop n (2 ^ d) (Nat.two_pow_pos d) = splitPoint n := by
  obtain ⟨e, hs, hlt, hle⟩ := splitPoint_spec (n := n) (by
    have := Nat.two_pow_pos d
    omega)
  have hde : d ≤ e := by
    have hp : 2 ^ d < 2 ^ (e + 1) := by omega
    have := (Nat.pow_lt_pow_iff_right (by omega : 1 < 2)).mp hp
    omega
  rw [hs]
  clear h hs
  induction hk : e - d generalizing d with
  | zero =>
    obtain rfl : d = e := by omega
    rw [splitLoop, if_neg (by rw [Nat.shiftLeft_eq]; omega)]
  | succ k ih =>
    have hp : 2 ^ (d + 1) ≤ 2 ^ e := Nat.pow_le_pow_right (by omega) (by omega)
    have hshift : 2 ^ d <<< 1 = 2 ^ (d + 1) := by
      rw [Nat.shiftLeft_eq, pow_one, pow_succ]
    rw [splitLoop, if_pos (by omega)]
    simp only [hshift]
    exact ih (by omega) (by omega)

theorem split_eq_splitPoint {n : ℕ} (h : 2 ≤ n) : split n = splitPoint n := by
  have hl := splitLoop_eq_splitPoint (n := n) (d := 0) (by omega)
  simpa [split] using hl

theorem split_two_pow_add {d r : ℕ} (hr : 0 < r) (hle : r ≤ 2 ^ d) : split (2 ^ d + r) = 2 ^ d := by
  rw [split_eq_splitPoint (by omega)]
  apply splitPoint_eq_of_lt_of_le
  · omega
  · rw [pow_succ]
    omega

variable {H : Type*} [Sha256 H]

/-! ## Roots -/

/-- The Merkle tree hash with the log's own empty root and node hash. -/
def logRoot (leaves : List H) : H := treeHash emptyRoot nodeHash leaves

namespace MerkleLog

theorem rootRange_eq_logRoot (leaves : List H) : rootRange leaves = logRoot leaves := by
  unfold logRoot
  induction leaves using rootRange.induct with
  | case1 => rw [rootRange, treeHash_nil]
  | case2 => rw [rootRange, treeHash_singleton]
  | case3 a b rest k ihl ihr =>
    have hk : k = splitPoint (a :: b :: rest).length := split_eq_splitPoint (by omega)
    rw [rootRange, treeHash_of_two_le _ _ _ (by simp), ihl, ihr, hk]

theorem rootOf_eq_logRoot (log : MerkleLog H) (n : ℕ) :
    log.rootOf n = logRoot (log.leaves.take n) := by
  unfold rootOf
  split
  · next h => simp [h, logRoot]
  · exact rootRange_eq_logRoot _

theorem root_eq_logRoot (log : MerkleLog H) : log.root = logRoot log.leaves := by
  rw [root, rootOf_eq_logRoot, take_length]

/-! ## The proof generators along a split -/

section Split

variable {left right : List H} {d : ℕ} (hlt : left.length = 2 ^ d)
  (hr : 0 < right.length) (hle : right.length ≤ 2 ^ d)

include hlt hr hle

theorem logRoot_append : logRoot (left ++ right) = nodeHash (logRoot left) (logRoot right) :=
  treeHash_append _ _ hlt hr hle

theorem consistency_append_left {m : ℕ} (hm : m ≤ 2 ^ d) (isRoot : Bool) :
    consistency (left ++ right) m isRoot =
      consistency left m isRoot ++ [logRoot right] := by
  have hl : (left ++ right).length = 2 ^ d + right.length := by simp [hlt]
  rw [consistency, if_neg (by omega), if_neg (by omega)]
  simp only [hl, split_two_pow_add hr hle, if_pos hm]
  rw [← hlt, take_left, drop_left, rootRange_eq_logRoot]

theorem consistency_append_right {m : ℕ} (hp : 0 < m) (hm : m < right.length) (isRoot : Bool) :
    consistency (left ++ right) (2 ^ d + m) isRoot =
      consistency right m false ++ [logRoot left] := by
  have hl : (left ++ right).length = 2 ^ d + right.length := by simp [hlt]
  rw [consistency, if_neg (by omega), if_neg (by omega)]
  simp only [hl, split_two_pow_add hr hle, if_neg (by omega : ¬2 ^ d + m ≤ 2 ^ d)]
  rw [Nat.add_sub_cancel_left, ← hlt, take_left, drop_left, rootRange_eq_logRoot]

end Split

end MerkleLog

end Pigeonpost
