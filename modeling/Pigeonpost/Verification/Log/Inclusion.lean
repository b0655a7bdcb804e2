import Pigeonpost.Verification.Log.Consistency

/-! # Inclusion proofs

The climb of an inclusion proof is the climb of a consistency proof that only looks at the
newer root, so the last step is where it meets the prover's recursion. -/

namespace Pigeonpost

open MerkleTree MerkleLog List

variable {H : Type*} [Sha256 H] {left right : List H} {d i : ℕ}

theorem climbInclusion_eq_climbConsistency (proof : List H) (node last : ℕ) (old hash : H) :
    climbInclusion proof node last hash =
      (climbConsistency proof node last old hash).map Prod.snd := by
  induction proof generalizing node last old hash with
  | nil =>
    rw [climbInclusion, climbConsistency_nil]
    split
    · rfl
    · rfl
  | cons _ _ ih =>
    rw [climbInclusion, climbConsistency]
    split
    · rfl
    split
    · exact ih _ _ _ _
    · exact ih _ _ _ _

/-! ## The prover along a split -/

section Split

variable (hlt : left.length = 2 ^ d) (hr : 0 < right.length) (hle : right.length ≤ 2 ^ d)

include hlt hr hle

theorem path_append_left (hi : i < 2 ^ d) :
    path (left ++ right) i = path left i ++ [logRoot right] := by
  have hl : (left ++ right).length = 2 ^ d + right.length := by simp [hlt]
  rw [path, if_neg (by omega)]
  simp only [hl, split_two_pow_add hr hle, if_pos hi]
  rw [← hlt, take_left, drop_left, rootRange_eq_logRoot]

theorem path_append_right (i : ℕ) :
    path (left ++ right) (2 ^ d + i) = path right i ++ [logRoot left] := by
  have hl : (left ++ right).length = 2 ^ d + right.length := by simp [hlt]
  rw [path, if_neg (by omega)]
  simp only [hl, split_two_pow_add hr hle, if_neg (by omega : ¬2 ^ d + i < 2 ^ d)]
  rw [Nat.add_sub_cancel_left, ← hlt, take_left, drop_left, rootRange_eq_logRoot]

end Split

/-! ## The verifier -/

/-- A proof of a larger tree ends in the root of the subtree that its leaf is not in. -/
theorem climbInclusion_append (hright : 0 < right.length) (hle : right.length ≤ 2 ^ d)
    (hi : i < 2 ^ d + right.length) (steps : List H) (s hash : H) :
    climbInclusion (steps ++ [s]) i (2 ^ d + right.length - 1) hash =
      if i < 2 ^ d then (climbInclusion steps i (2 ^ d - 1) hash).map (nodeHash · s)
      else (climbInclusion steps (i - 2 ^ d) (right.length - 1) hash).map (nodeHash s ·) := by
  simp only [climbInclusion_eq_climbConsistency _ _ _ hash]
  split
  · rename_i hlt
    rw [climbConsistency_left steps s hash hash hlt (by omega) (by rw [pow_succ]; omega)]
    simp [Function.comp_def]
  · rename_i hge
    have hl : 2 ^ d + right.length - 1 = 2 ^ d + (right.length - 1) := by omega
    have hn : i = 2 ^ d + (i - 2 ^ d) := by omega
    rw [hl, hn, climbConsistency_right steps s hash hash (by omega) (by omega)]
    simp [Function.comp_def]

omit [Sha256 H] in
theorem map_eq_some_node {join : H → H} {whole part : H} {other : Prop}
    (hj : ∀ hash, join hash = whole ↔ hash = part ∧ other) {climbed : Option H} :
    climbed.map join = some whole ↔ climbed = some part ∧ other := by
  cases climbed with
  | none => simp
  | some => simp [hj]

theorem climbInclusion_eq_logRoot (hn : Function.Injective2 (nodeHash (H := H))) :
    ∀ leaves : List H, leaves ≠ [] → ∀ (i : ℕ) (proof : List H) (hash : H), i < leaves.length →
      (climbInclusion proof i (leaves.length - 1) hash = some (logRoot leaves) ↔
        leaves[i]? = some hash ∧ proof = path leaves i) := by
  refine tree_induction ?_ ?_
  · intro leaf i proof hash hi
    obtain rfl : i = 0 := by simpa using hi
    cases proof with
    | nil => simp [climbInclusion, path, logRoot, eq_comm]
    | cons => simp [climbInclusion, path]
  · intro d left right hleft hright hle ihl ihr i proof hash hi
    have hl : (left ++ right).length = 2 ^ d + right.length := by simp [hleft]
    rw [hl] at hi ⊢
    rw [logRoot_append hleft hright hle]
    rcases eq_nil_or_concat proof with rfl | ⟨steps, s, rfl⟩
    · have hp : path (left ++ right) i ≠ [] := by
        rcases Nat.lt_or_ge i (2 ^ d) with hlt | hge
        · simp [path_append_left hleft hright hle hlt]
        · obtain ⟨k, rfl⟩ := Nat.exists_eq_add_of_le hge
          simp [path_append_right hleft hright hle]
      rw [climbInclusion, if_neg (by omega)]
      simp [hp.symm]
    · rw [concat_eq_append, climbInclusion_append hright hle hi]
      rcases Nat.lt_or_ge i (2 ^ d) with hlt | hge
      · have hr := ihl i steps hash (by omega)
        rw [hleft] at hr
        rw [if_pos hlt, path_append_left hleft hright hle hlt, getElem?_append_left (by omega),
          map_eq_some_node fun _ => hn.eq_iff, hr, append_singleton_inj, and_assoc]
      · obtain ⟨k, rfl⟩ := Nat.exists_eq_add_of_le hge
        have hr := ihr k steps hash (by omega)
        rw [if_neg (by omega), path_append_right hleft hright hle, Nat.add_sub_cancel_left,
          getElem?_append_right (by omega), hleft, Nat.add_sub_cancel_left, map_eq_some_node
          fun _ => hn.eq_iff.trans and_comm, hr, append_singleton_inj, and_assoc]

/-- The verifier accepts exactly the leaf at the index with the path the log generates. -/
theorem verifyInclusion_iff_inclusionProof [DecidableEq H]
    (hnode : Function.Injective2 (nodeHash (H := H))) (log : MerkleLog H) (index : ℕ) (leaf : H)
    (proof : List H) :
    verifyInclusion leaf index log.size proof log.root = true ↔
      index < log.size ∧ log.leaves[index]? = some leaf ∧
        log.inclusionProof index log.size = some proof := by
  rw [verifyInclusion, inclusionProof, root_eq_logRoot, size, take_length]
  by_cases hi : index < log.leaves.length
  · have hne : log.leaves ≠ [] := ne_nil_of_length_pos (by omega)
    have hc := climbInclusion_eq_logRoot hnode log.leaves hne index proof leaf hi
    rw [if_neg (by omega), if_neg (by omega), Option.some_inj, eq_comm (b := proof), ← hc]
    cases climbInclusion proof index (log.leaves.length - 1) leaf with
    | none => simp
    | some => simp [hi]
  · simp [hi]

def threeLeaves : MerkleLog SymbolicHash := ⟨[.leaf [0], .leaf [1], .leaf [2]]⟩

theorem verifyInclusion_iff_inclusionProof_middle :
    verifyInclusion (.leaf [1]) 1 threeLeaves.size [.leaf [0], .leaf [2]] threeLeaves.root =
      true := by
  refine (verifyInclusion_iff_inclusionProof SymbolicHash.nodeHash_injective2 _ _ _ _).mpr
    ⟨by decide, rfl, ?_⟩
  simp [threeLeaves, inclusionProof, size, path, split, splitLoop, rootRange]

end Pigeonpost
