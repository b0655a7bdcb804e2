import Mathlib.Data.Nat.Log
import Mathlib.Tactic.Ring

/-! # Merkle trees that split at a power of two

The tree over a list of leaves splits at the largest power of two strictly below
its length, so every left subtree is complete. The results are over an arbitrary
type of hashes, an arbitrary empty value and an arbitrary node function. -/

namespace Pigeonpost.MerkleTree

open List

/-! ## The split point -/

/-- The largest power of two strictly below `n`, for `n` at least two. -/
def splitPoint (n : ℕ) : ℕ := 2 ^ Nat.log 2 (n - 1)

theorem splitPoint_pos (n : ℕ) : 0 < splitPoint n :=
  Nat.two_pow_pos _

theorem splitPoint_lt {n : ℕ} (h : 2 ≤ n) : splitPoint n < n := by
  have hle : 2 ^ Nat.log 2 (n - 1) ≤ n - 1 := Nat.pow_log_le_self 2 (by omega)
  unfold splitPoint
  omega

/-- The split point is stable over the whole range it serves. -/
theorem splitPoint_eq_of_lt_of_le {n d : ℕ} (hlt : 2 ^ d < n) (hle : n ≤ 2 ^ (d + 1)) :
    splitPoint n = 2 ^ d := by
  have hl : Nat.log 2 (n - 1) = d := Nat.log_eq_of_pow_le_of_lt_pow (by omega) (by omega)
  rw [splitPoint, hl]

/-- The length of a list of at least two leaves lies between its split point and
twice that power. -/
theorem splitPoint_spec {n : ℕ} (h : 2 ≤ n) :
    ∃ d, splitPoint n = 2 ^ d ∧ 2 ^ d < n ∧ n ≤ 2 ^ (d + 1) := by
  refine ⟨Nat.log 2 (n - 1), rfl, splitPoint_lt h, ?_⟩
  have hlt : n - 1 < 2 ^ (Nat.log 2 (n - 1) + 1) := Nat.lt_pow_succ_log_self (by omega) _
  omega

/-! ## The tree hash -/

variable {H : Type*}

def treeHash (empty : H) (node : H → H → H) : List H → H
  | [] => empty
  | [x] => x
  | x :: y :: rest =>
    node (treeHash empty node ((x :: y :: rest).take (splitPoint (rest.length + 2))))
      (treeHash empty node ((x :: y :: rest).drop (splitPoint (rest.length + 2))))
termination_by xs => xs.length
decreasing_by
  · have hlt := splitPoint_lt (n := rest.length + 2) (by omega)
    simp only [List.length_take, List.length_cons]
    omega
  · have hpos := splitPoint_pos (rest.length + 2)
    simp only [List.length_drop, List.length_cons]
    omega

variable (empty : H) (node : H → H → H)

@[simp] theorem treeHash_nil : treeHash empty node [] = empty := by
  rw [treeHash]

@[simp] theorem treeHash_singleton (x : H) : treeHash empty node [x] = x := by
  rw [treeHash]

variable (xs : List H)

theorem treeHash_of_two_le (h : 2 ≤ xs.length) : treeHash empty node xs =
      node (treeHash empty node (xs.take (splitPoint xs.length)))
        (treeHash empty node (xs.drop (splitPoint xs.length))) := by
  match xs, h with
  | x :: y :: rest, _ =>
    conv_lhs => rw [treeHash]
    simp only [length_cons]

/-- A complete left part and a nonempty right part no longer than it are exactly
the two subtrees of their concatenation. -/
theorem treeHash_append {xs ys : List H} {d : ℕ} (hx : xs.length = 2 ^ d)
    (hy : 0 < ys.length) (hle : ys.length ≤ 2 ^ d) :
    treeHash empty node (xs ++ ys) =
      node (treeHash empty node xs) (treeHash empty node ys) := by
  have hl : (xs ++ ys).length = 2 ^ d + ys.length := by simp [hx]
  have hs : splitPoint (xs ++ ys).length = 2 ^ d := by
    apply splitPoint_eq_of_lt_of_le
    · omega
    · omega
  rw [treeHash_of_two_le empty node (xs ++ ys) (by omega), hs, ← hx]
  simp

/-- Induction along the shape of the tree: one leaf, or a complete left part
followed by a nonempty right part no longer than it. -/
theorem tree_induction {P : List H → Prop} (single : ∀ x, P [x])
    (split : ∀ d xs ys, xs.length = 2 ^ d → 0 < ys.length → ys.length ≤ 2 ^ d →
      P xs → P ys → P (xs ++ ys)) :
    ∀ xs : List H, xs ≠ [] → P xs := by
  intro xs
  induction hn : xs.length using Nat.strong_induction_on generalizing xs with
  | _ n ih =>
    intro hne
    have hp : 0 < xs.length := length_pos_iff.mpr hne
    rcases Nat.lt_or_ge 1 xs.length with htwo | ho
    · obtain ⟨d, _, hlt, hle⟩ := splitPoint_spec htwo
      have ht : (xs.take (2 ^ d)).length = 2 ^ d := by
        rw [length_take]
        omega
      have hd : (xs.drop (2 ^ d)).length = xs.length - 2 ^ d := length_drop
      rw [← take_append_drop (2 ^ d) xs]
      apply split d _ _ ht (by omega) (by omega)
      · exact ih _ (by omega) _ rfl (ne_nil_of_length_pos (by omega))
      · exact ih _ (by omega) _ rfl (ne_nil_of_length_pos (by omega))
    · obtain ⟨x, rfl⟩ := length_eq_one_iff.mp (by omega : xs.length = 1)
      exact single x

/-! ## Subtrees by level and index -/

/-- The root of the node at `level` and `index`: the leaves from
`index * 2 ^ level` on, at most `2 ^ level` of them. -/
def subtree (xs : List H) (level index : ℕ) : H :=
  treeHash empty node ((xs.drop (index * 2 ^ level)).take (2 ^ level))

theorem subtree_zero (i : ℕ) (hi : i < xs.length) : subtree empty node xs 0 i = xs[i] := by
  have hs : (xs.drop i).take 1 = [xs[i]] := by
    rw [drop_eq_getElem_cons hi, take_succ_cons, take_zero]
  simp [subtree, hs]

/-- A node with a right child combines its two children. -/
theorem subtree_succ (level i : ℕ) (h : (2 * i + 1) * 2 ^ level < xs.length) :
    subtree empty node xs (level + 1) i = node (subtree empty node xs level (2 * i))
        (subtree empty node xs level (2 * i + 1)) := by
  have hs : i * 2 ^ (level + 1) = 2 * i * 2 ^ level := by ring
  have hn : (2 * i + 1) * 2 ^ level = 2 * i * 2 ^ level + 2 ^ level := by ring
  have hw : 2 ^ (level + 1) = 2 ^ level + 2 ^ level := by ring
  have hslice : (xs.drop (i * 2 ^ (level + 1))).take (2 ^ (level + 1)) =
      (xs.drop (2 * i * 2 ^ level)).take (2 ^ level) ++
        (xs.drop ((2 * i + 1) * 2 ^ level)).take (2 ^ level) := by
    rw [hs, hw, take_add, drop_drop, hn]
  have hp : 0 < 2 ^ level := Nat.two_pow_pos level
  unfold subtree
  rw [hslice]
  apply treeHash_append empty node (d := level)
  · simp only [length_take, length_drop]
    omega
  · simp only [length_take, length_drop]
    omega
  · exact length_take_le _ _

theorem subtree_take (m level i : ℕ) (h : (i + 1) * 2 ^ level ≤ m) :
    subtree empty node (xs.take m) level i = subtree empty node xs level i := by
  have he : (i + 1) * 2 ^ level = i * 2 ^ level + 2 ^ level := by ring
  unfold subtree
  rw [drop_take, take_take, Nat.min_eq_left (by omega)]

/-- Leaves behind a subtree do not change it. -/
theorem subtree_append_left (ys : List H) (level i : ℕ) (h : (i + 1) * 2 ^ level ≤ xs.length) :
    subtree empty node (xs ++ ys) level i = subtree empty node xs level i := by
  have ht := subtree_take empty node (xs ++ ys) xs.length level i h
  rwa [take_left, eq_comm] at ht

/-! ## Collision freedom -/

/-- With an injective node function two roots over equally many leaves are equal
only when the leaves are. -/
theorem treeHash_injective (hn : Function.Injective2 node) (xs : List H) :
    ∀ ys : List H, xs.length = ys.length →
      treeHash empty node xs = treeHash empty node ys → xs = ys := by
  rcases eq_or_ne xs [] with rfl | hne
  · intro ys hlen _
    exact (length_eq_zero_iff.mp hlen.symm).symm
  · revert xs
    refine tree_induction ?_ ?_
    · intro x ys hlen hroot
      obtain ⟨y, rfl⟩ := length_eq_one_iff.mp hlen.symm
      simpa using hroot
    · intro d left right hleft hright hle ihl ihr ys hlen hroot
      rw [length_append] at hlen
      have ht : (ys.take (2 ^ d)).length = 2 ^ d := by
        rw [length_take]
        omega
      have hd : (ys.drop (2 ^ d)).length = right.length := by
        rw [length_drop]
        omega
      rw [← take_append_drop (2 ^ d) ys] at hroot ⊢
      rw [treeHash_append empty node hleft hright hle,
        treeHash_append empty node ht (by omega) (by omega)] at hroot
      obtain ⟨hl, hr⟩ := hn hroot
      rw [ihl _ (hleft.trans ht.symm) hl, ihr _ hd.symm hr]

end Pigeonpost.MerkleTree
