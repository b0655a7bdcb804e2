import Pigeonpost.Library.Outcome
import Pigeonpost.Program.Storage.Tables
import Pigeonpost.Verification.Log.Tree

/-! # The persisted tree refines the in-memory log

The table of nodes holds exactly the complete subtrees, and every range of leaves
is read back from it. -/

namespace Pigeonpost

open MerkleTree MerkleLog List

variable {H : Type} {s : Store H}

theorem toI64_of_le {value : ℕ} (h : value ≤ i64Max) (description : String) :
    toI64 value description = .ok value := if_pos h

theorem toI64_eq_ok {value result : ℕ} {description : String}
    (h : toI64 value description = .ok result) : result = value ∧ value ≤ i64Max := by
  unfold toI64 at h
  split at h
  · next hle => exact ⟨(Except.ok.inj h).symm, hle⟩
  · cases h

namespace Store

theorem setNode_merkleNodes (s : Store H) (level i l j : ℕ) (hash : H) :
    (s.setNode level i hash).merkleNodes l j =
      if l = level ∧ j = i then some hash else s.merkleNodes l j := rfl

variable {level i : ℕ}

theorem readNode_eq_ok {hash : H} (hi : i ≤ i64Max)
    (h : s.merkleNodes level i = some hash) : s.readNode level i = .ok hash := by
  rw [readNode, toI64_of_le hi]
  simp [bind, Except.bind, h, pure, Except.pure]

theorem insertNode_eq_ok (hash : H) (hi : i ≤ i64Max) (h : s.merkleNodes level i = none) :
    s.insertNode level i hash = .ok (s.setNode level i hash) := by
  rw [insertNode, toI64_of_le hi]
  simp [bind, Except.bind, h, pure, Except.pure]

end Store

variable [Sha256 H]

/-- The complete subtrees of a list of leaves, and nothing else. -/
def StoresTree (nodes : ℕ → ℕ → Option H) (leaves : List H) : Prop :=
  ∀ level i, nodes level i =
    if (i + 1) * 2 ^ level ≤ leaves.length then some (subtree emptyRoot nodeHash leaves level i)
    else none

namespace Store

/-! ## Appending a leaf -/

/-- The nodes while a new leaf climbs: up to `level` those of the longer list,
above it still those of the shorter one. -/
def ClimbingTree (nodes : ℕ → ℕ → Option H) (leaves : List H) (n level : ℕ) : Prop :=
  ∀ l i, nodes l i = if (i + 1) * 2 ^ l ≤ (if l ≤ level then n + 1 else n) then
      some (subtree emptyRoot nodeHash leaves l i)
    else none

/-- A parent index and its right child end at the same leaf. -/
theorem succ_half_mul {i level : ℕ} (ho : i % 2 = 1) :
    (i / 2 + 1) * 2 ^ (level + 1) = (i + 1) * 2 ^ level := by
  obtain ⟨j, rfl⟩ : ∃ j, i = 2 * j + 1 := ⟨i / 2, by omega⟩
  rw [show (2 * j + 1) / 2 = j by omega]
  ring

/-- Above the level of an even index no node ends at that leaf. -/
theorem mul_two_pow_ne {i j l level : ℕ} (he : i % 2 = 0) (hlt : level < l) :
    (j + 1) * 2 ^ l ≠ (i + 1) * 2 ^ level := by
  obtain ⟨k, rfl⟩ : ∃ k, l = level + (k + 1) := ⟨l - level - 1, by omega⟩
  intro heq
  rw [show (j + 1) * 2 ^ (level + (k + 1)) = (j + 1) * 2 ^ k * 2 * 2 ^ level by ring] at heq
  have hc := Nat.eq_of_mul_eq_mul_right (Nat.two_pow_pos level) heq
  omega

theorem climbNodes_spec (s : Store H) (leaves : List H) (n level i : ℕ)
    (hlen : leaves.length = n + 1) (hn : n ≤ i64Max) (hend : (i + 1) * 2 ^ level = n + 1)
    (htree : ClimbingTree s.merkleNodes leaves n level) :
    ∃ nodes, s.climbNodes level i (subtree emptyRoot nodeHash leaves level i) =
        .ok { s with merkleNodes := nodes } ∧ StoresTree nodes leaves := by
  induction i using Nat.strong_induction_on generalizing s level with
  | _ i ih =>
    have hpow : 0 < 2 ^ level := Nat.two_pow_pos level
    have hin : i ≤ n := by
      have hle : (i + 1) * 1 ≤ (i + 1) * 2 ^ level := Nat.mul_le_mul_left _ hpow
      omega
    rcases Nat.mod_two_eq_zero_or_one i with he | ho
    · refine ⟨s.merkleNodes, ?_, ?_⟩
      · rw [climbNodes, if_neg (by omega)]
      · intro l j
        rw [htree l j, hlen]
        by_cases hl : l ≤ level
        · rw [if_pos hl]
        · have hne := @mul_two_pow_ne i j _ _ he (Nat.lt_of_not_le hl)
          rw [if_neg hl]
          congr 1
          apply propext
          omega
    · have hp := @succ_half_mul i level ho
      have hh : i / 2 < i := by omega
      have hlee : i * 2 ^ level ≤ n + 1 := by
        rw [← hend]
        exact Nat.mul_le_mul_right _ (by omega)
      have hleft : s.merkleNodes level (i - 1) =
          some (subtree emptyRoot nodeHash leaves level (i - 1)) := by
        rw [htree, if_pos le_rfl, show i - 1 + 1 = i by omega, if_pos hlee]
      have hj : nodeHash (subtree emptyRoot nodeHash leaves level (i - 1))
          (subtree emptyRoot nodeHash leaves level i) =
          subtree emptyRoot nodeHash leaves (level + 1) (i / 2) := by
        rw [subtree_succ emptyRoot nodeHash leaves level (i / 2),
          show 2 * (i / 2) = i - 1 by omega, show i - 1 + 1 = i by omega]
        rw [hlen, ← hend]
        exact Nat.mul_lt_mul_of_pos_right (by omega) hpow
      have hf : s.merkleNodes (level + 1) (i / 2) = none := by
        rw [htree, if_neg (by omega : ¬level + 1 ≤ level), if_neg (by omega)]
      have hnext : ClimbingTree (s.setNode (level + 1) (i / 2)
          (subtree emptyRoot nodeHash leaves (level + 1) (i / 2))).merkleNodes leaves n
          (level + 1) := by
        intro l j
        rw [setNode_merkleNodes]
        by_cases hnew : l = level + 1 ∧ j = i / 2
        · obtain ⟨rfl, rfl⟩ := hnew
          simp [hp, hend]
        · rw [if_neg hnew, htree l j]
          rcases Nat.lt_trichotomy l (level + 1) with hlt | rfl | hgt
          · rw [if_pos (by omega : l ≤ level), if_pos (by omega : l ≤ level + 1)]
          · have hne : (j + 1) * 2 ^ (level + 1) ≠ n + 1 := by
              rw [← hend, ← hp]
              intro heq
              have hcan := Nat.eq_of_mul_eq_mul_right (Nat.two_pow_pos (level + 1)) heq
              exact hnew ⟨rfl, by omega⟩
            rw [if_neg (by omega : ¬level + 1 ≤ level), if_pos le_rfl]
            congr 1
            apply propext
            omega
          · rw [if_neg (by omega : ¬l ≤ level), if_neg (by omega : ¬l ≤ level + 1)]
      obtain ⟨nodes, hc, hs⟩ := ih (i / 2) hh _ (level + 1) (hp.trans hend) hnext
      refine ⟨nodes, ?_, hs⟩
      rw [climbNodes, if_pos ho, readNode_eq_ok (by omega) hleft]
      simp only [bind, Except.bind]
      rw [hj, insertNode_eq_ok _ (by omega) hf]
      exact hc

variable {leaves : List H}

theorem appendMerkleLeaf_spec (leaf : H)
    (hn : leaves.length ≤ i64Max) (htree : StoresTree s.merkleNodes leaves) :
    ∃ nodes, s.appendMerkleLeaf leaves.length leaf = .ok { s with merkleNodes := nodes } ∧
      StoresTree nodes (leaves ++ [leaf]) := by
  have hf : s.merkleNodes 0 leaves.length = none := by
    rw [htree, if_neg (by simp)]
  have hleaf : subtree emptyRoot nodeHash (leaves ++ [leaf]) 0 leaves.length = leaf := by
    rw [subtree_zero emptyRoot nodeHash _ _ (by simp)]
    simp
  have hstart : ClimbingTree (s.setNode 0 leaves.length leaf).merkleNodes (leaves ++ [leaf])
      leaves.length 0 := by
    intro l j
    rw [setNode_merkleNodes]
    by_cases hnew : l = 0 ∧ j = leaves.length
    · obtain ⟨rfl, rfl⟩ := hnew
      simp [hleaf]
    · rw [if_neg hnew, htree l j]
      have hb : ((j + 1) * 2 ^ l ≤ if l ≤ 0 then leaves.length + 1 else leaves.length) ↔
          (j + 1) * 2 ^ l ≤ leaves.length := by
        by_cases hl : l = 0
        · subst hl
          rw [if_pos le_rfl]
          omega
        · rw [if_neg (by omega)]
      by_cases hle : (j + 1) * 2 ^ l ≤ leaves.length
      · rw [if_pos hle, if_pos (hb.mpr hle), subtree_append_left _ _ _ _ _ _ hle]
      · rw [if_neg hle, if_neg (fun h => hle (hb.mp h))]
  obtain ⟨nodes, hc, hs⟩ := climbNodes_spec _ (leaves ++ [leaf]) leaves.length 0
    leaves.length (by simp) hn (by simp) hstart
  refine ⟨nodes, ?_, hs⟩
  rw [hleaf] at hc
  rw [appendMerkleLeaf, insertNode_eq_ok leaf hn hf]
  exact hc

/-! ## Reading ranges -/

theorem splitU64_eq_split {n : ℕ} (h : 1 < n) : splitU64 n = split n := by
  have hle := Nat.log2_self_le (n := n - 1) (by omega)
  have hlt := Nat.lt_log2_self (n := n - 1)
  rw [splitU64, Nat.one_shiftLeft, split_eq_splitPoint h]
  exact (splitPoint_eq_of_lt_of_le (by omega) (by omega)).symm

def range (leaves : List H) (start size : ℕ) : List H := (leaves.drop start).take size

omit [Sha256 H] in
theorem length_range {start size : ℕ} (h : start + size ≤ leaves.length) :
    (range leaves start size).length = size := by
  simp only [range, length_take, length_drop]
  omega

omit [Sha256 H] in
theorem take_range (leaves : List H) {start size k : ℕ} (h : k ≤ size) :
    (range leaves start size).take k = range leaves start k := by
  rw [range, take_take, Nat.min_eq_left h, range]

omit [Sha256 H] in
theorem drop_range (leaves : List H) (start size k : ℕ) :
    (range leaves start size).drop k = range leaves (start + k) (size - k) := by
  rw [range, drop_take, drop_drop, range]

section Ranges

variable {s : Store H} {leaves : List H} (htr : StoresTree s.merkleNodes leaves)
  (hn : leaves.length ≤ i64Max)

include htr hn

theorem treeHashRange_eq (start size : ℕ) (h : start + size ≤ leaves.length) :
    s.treeHashRange start size = .ok (logRoot (range leaves start size)) := by
  induction size using Nat.strong_induction_on generalizing start with
  | _ size ih =>
    rw [treeHashRange]
    by_cases hz : size = 0
    · subst hz
      simp [range, logRoot]
    by_cases hnode : size.isPowerOfTwo ∧ start % size = 0
    · obtain ⟨⟨level, rfl⟩, hs⟩ := hnode
      have ha : start / 2 ^ level * 2 ^ level = start :=
        Nat.div_mul_cancel (Nat.dvd_of_mod_eq_zero hs)
      have hle : start / 2 ^ level ≤ start := Nat.div_le_self _ _
      rw [if_neg hz, if_pos ⟨⟨level, rfl⟩, hs⟩, Nat.log2_two_pow]
      refine readNode_eq_ok (by omega) ?_
      rw [htr, if_pos, subtree, ha, range, logRoot]
      rw [Nat.succ_mul, ha]
      exact h
    · have ht := one_lt_of_ragged hz hnode
      have hlt := splitU64_lt ht
      have hp := splitU64_pos size
      have hl := length_range h
      have hr : size - splitU64 size < size := by omega
      rw [if_neg hz, if_neg hnode]
      simp only [ih _ hlt start (by omega), ih _ hr (start + splitU64 size) (by omega),
        bind, Except.bind, pure, Except.pure, Except.ok.injEq]
      rw [← take_range leaves hlt.le, ← drop_range, logRoot, logRoot, logRoot,
        treeHash_of_two_le _ _ (range leaves start size) (by omega), hl,
        splitU64_eq_split ht, split_eq_splitPoint ht]

theorem rootForSize_eq {size : ℕ} (h : size ≤ leaves.length) :
    s.rootForSize size = .ok (logRoot (leaves.take size)) := by
  rw [rootForSize]
  split
  · next hz => simp [hz, logRoot]
  · rw [treeHashRange_eq htr hn 0 size (by omega), range, drop_zero]

theorem inclusionPath_eq (start size index : ℕ) (h : start + size ≤ leaves.length) :
    s.inclusionPath start size index = .ok (path (range leaves start size) index) := by
  induction size using Nat.strong_induction_on generalizing start index with
  | _ size ih =>
    have hl := length_range h
    rw [inclusionPath, path, hl]
    by_cases ho : size ≤ 1
    · rw [if_pos ho, if_pos ho]
    · have hlt := splitU64_lt (n := size) (by omega)
      have hp := splitU64_pos size
      have hr : size - splitU64 size < size := by omega
      rw [if_neg ho, if_neg ho, ← splitU64_eq_split (by omega)]
      simp only [take_range leaves hlt.le, drop_range, rootRange_eq_logRoot]
      by_cases hindex : index < splitU64 size
      · rw [if_pos hindex, if_pos hindex, ih _ hlt _ _ (by omega),
          treeHashRange_eq htr hn _ _ (by omega)]
        rfl
      · rw [if_neg hindex, if_neg hindex, ih _ hr _ _ (by omega),
          treeHashRange_eq htr hn _ _ (by omega)]
        rfl

theorem consistencyPath_eq (start size old : ℕ) (isRoot : Bool) (h : start + size ≤ leaves.length) :
    s.consistencyPath start size old isRoot =
      .ok (consistency (range leaves start size) old isRoot) := by
  induction size using Nat.strong_induction_on generalizing start old isRoot with
  | _ size ih =>
    have hl := length_range h
    rw [consistencyPath, consistency, hl]
    by_cases hold : old = size
    · rw [if_pos hold, if_pos hold, rootRange_eq_logRoot, treeHashRange_eq htr hn _ _ h]
      cases isRoot <;> rfl
    by_cases ho : size ≤ 1
    · rw [if_neg hold, if_neg hold, if_pos ho, if_pos ho]
    · have hlt := splitU64_lt (n := size) (by omega)
      have hp := splitU64_pos size
      have hr : size - splitU64 size < size := by omega
      rw [if_neg hold, if_neg hold, if_neg ho, if_neg ho, ← splitU64_eq_split (by omega)]
      simp only [take_range leaves hlt.le, drop_range, rootRange_eq_logRoot]
      by_cases hs : old ≤ splitU64 size
      · rw [if_pos hs, if_pos hs, ih _ hlt _ _ _ (by omega), treeHashRange_eq htr hn _ _ (by omega)]
        rfl
      · rw [if_neg hs, if_neg hs, ih _ hr _ _ _ (by omega), treeHashRange_eq htr hn _ _ (by omega)]
        rfl

end Ranges

end Store

end Pigeonpost
