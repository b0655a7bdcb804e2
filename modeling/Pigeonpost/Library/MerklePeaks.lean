import Pigeonpost.Library.MerkleTree
import Mathlib.Data.Nat.Bits
import Mathlib.Data.List.ReduceOption

/-! # Merkle trees level by level

One level of the tree joins neighbouring hashes and carries an odd last hash
along. The peaks of a list are those odd last hashes, one for each set bit of the
length, lowest level first. -/

namespace Pigeonpost.MerkleTree

open List

variable {H : Type*}

/-! ## One level -/

/-- The joined neighbours of one level, without an odd last hash. -/
@[simp] def pairs (node : H → H → H) : List H → List H
  | x :: y :: rest => node x y :: pairs node rest
  | _ => []

/-- The last hash of a level of odd length. -/
@[simp] def oddLast : List H → Option H
  | _ :: _ :: rest => oddLast rest
  | [x] => some x
  | [] => none

variable (empty : H) (node : H → H → H)

theorem length_pairs (xs : List H) : (pairs node xs).length = xs.length / 2 := by
  induction xs using oddLast.induct with
  | case1 _ _ _ ih =>
    simp only [pairs, length_cons, ih]
    omega
  | case2 => simp
  | case3 => simp

theorem isSome_oddLast (xs : List H) : (oddLast xs).isSome = decide (xs.length % 2 = 1) := by
  induction xs using oddLast.induct with
  | case1 x y rest ih =>
    have hm : (x :: y :: rest).length % 2 = rest.length % 2 := by
      simp only [length_cons]
      omega
    rw [oddLast, ih, hm]
  | case2 => rfl
  | case3 => rfl

variable {xs : List H}

/-- A level of even length followed by other hashes pairs up on its own. -/
theorem pairs_append (h : xs.length % 2 = 0) (ys : List H) :
    pairs node (xs ++ ys) = pairs node xs ++ pairs node ys := by
  induction xs using oddLast.induct with
  | case1 x y rest ih =>
    have he : rest.length % 2 = 0 := by
      simp only [length_cons] at h
      omega
    simp [ih he]
  | case2 => simp at h
  | case3 => rfl

theorem oddLast_append (h : xs.length % 2 = 0) (ys : List H) : oddLast (xs ++ ys) = oddLast ys := by
  induction xs using oddLast.induct with
  | case1 x y rest ih =>
    have he : rest.length % 2 = 0 := by
      simp only [length_cons] at h
      omega
    simp [ih he]
  | case2 => simp at h
  | case3 => rfl

theorem exists_append_of_odd (h : xs.length % 2 = 1) :
    ∃ ys z, xs = ys ++ [z] ∧ ys.length % 2 = 0 := by
  rcases eq_nil_or_concat xs with rfl | ⟨ys, z, rfl⟩
  · simp at h
  · refine ⟨ys, z, concat_eq_append, ?_⟩
    simp only [length_concat] at h
    omega

/-- Joining one level does not change the root. -/
theorem treeHash_level : ∀ xs : List H, xs ≠ [] →
    treeHash empty node (pairs node xs ++ (oddLast xs).toList) = treeHash empty node xs := by
  refine tree_induction ?_ ?_
  · intro x
    simp
  · intro d left right hl hr hle ihl ihr
    cases d with
    | zero =>
      obtain ⟨x, rfl⟩ := length_eq_one_iff.mp hl
      obtain ⟨y, rfl⟩ := length_eq_one_iff.mp (by omega : right.length = 1)
      rw [treeHash_append empty node hl hr hle]
      simp
    | succ d =>
      have he : left.length % 2 = 0 := by
        omega
      have hn : oddLast left = none := by
        simpa [he] using isSome_oddLast left
      have hh : (pairs node left).length = 2 ^ d := by
        rw [length_pairs]
        omega
      have hlen : (pairs node right ++ (oddLast right).toList).length = (right.length + 1) / 2 := by
        have ho := isSome_oddLast right
        rw [length_append, length_pairs]
        cases hlast : oddLast right with
        | none =>
          simp only [hlast, Option.isSome_none, Bool.false_eq, decide_eq_false_iff_not] at ho
          simp only [Option.toList_none, length_nil]
          omega
        | some =>
          simp only [hlast, Option.isSome_some, Bool.true_eq, decide_eq_true_eq] at ho
          simp only [Option.toList_some, length_singleton]
          omega
      rw [hn, Option.toList_none, append_nil] at ihl
      rw [pairs_append node he, oddLast_append he, append_assoc,
        treeHash_append empty node hh (by omega) (by omega), ihl, ihr,
        treeHash_append empty node hl hr (by rw [pow_succ]; omega)]

/-- The even part of a level may be joined in front of at most one more hash. -/
theorem treeHash_pairs_append (he : xs.length % 2 = 0) (last : Option H) :
    treeHash empty node (pairs node xs ++ last.toList) =
      treeHash empty node (xs ++ last.toList) := by
  by_cases hn : xs ++ last.toList = []
  · obtain ⟨rfl, hl⟩ := append_eq_nil_iff.mp hn
    simp [hl]
  · rw [← treeHash_level empty node _ hn, pairs_append node he, oddLast_append he]
    cases last with
    | none => simp
    | some => simp

/-! ## Peaks -/

/-- The odd last hashes of all levels, lowest level first. -/
def peakHashes (xs : List H) : List (Option H) :=
  if xs.length = 0 then [] else oddLast xs :: peakHashes (pairs node xs)
termination_by xs.length
decreasing_by
  rw [length_pairs]
  omega

@[simp] theorem peaks_nil : peakHashes node [] = [] := by
  rw [peakHashes, if_pos length_nil]

theorem peaks_of_pos (h : 0 < xs.length) :
    peakHashes node xs = oddLast xs :: peakHashes node (pairs node xs) := by
  rw [peakHashes, if_neg (by omega)]

theorem isSome_getElem_peaks (xs : List H) (level : ℕ) (h : level < (peakHashes node xs).length) :
    (peakHashes node xs)[level].isSome = xs.length.testBit level := by
  induction level generalizing xs with
  | zero =>
    have hp : 0 < xs.length := by
      rcases Nat.eq_zero_or_pos xs.length with h0 | hp
      · simp [length_eq_zero_iff.mp h0] at h
      · exact hp
    simp [peaks_of_pos node hp, isSome_oddLast]
  | succ _ ih =>
    have hp : 0 < xs.length := by
      rcases Nat.eq_zero_or_pos xs.length with h0 | hp
      · simp [length_eq_zero_iff.mp h0] at h
      · exact hp
    simp only [peaks_of_pos node hp, length_cons, Nat.add_lt_add_iff_right] at h
    simp only [peaks_of_pos node hp, getElem_cons_succ, ih _ h, length_pairs, Nat.testBit_succ]

theorem lt_two_pow_length_peaks (xs : List H) : xs.length < 2 ^ (peakHashes node xs).length := by
  induction xs using peakHashes.induct node with
  | case1 _ h => simp [length_eq_zero_iff.mp h]
  | case2 _ _ ih =>
    rw [length_pairs] at ih
    rw [peaks_of_pos node (by omega), length_cons]
    omega

theorem length_peaks_le (xs : List H) (bits : ℕ) (h : xs.length < 2 ^ bits) :
    (peakHashes node xs).length ≤ bits := by
  induction xs using peakHashes.induct node generalizing bits with
  | case1 _ h0 => simp [length_eq_zero_iff.mp h0]
  | case2 _ _ ih =>
    cases bits with
    | zero => omega
    | succ bits =>
      have hle := ih bits (by rw [length_pairs]; omega)
      rw [peaks_of_pos node (by omega), length_cons]
      omega

/-- Joining the peaks from the lowest level up rebuilds the root, with a hash of
the leaves behind the list as the start. -/
theorem foldl_peaks (xs : List H) (last : Option H) (h : 0 < xs.length ∨ last.isSome) :
    (peakHashes node xs).reduceOption.foldl
        (fun root peak => some (match root with
          | some right => node peak right
          | none => peak)) last =
      some (treeHash empty node (xs ++ last.toList)) := by
  induction xs using peakHashes.induct node generalizing last with
  | case1 xs h0 =>
    obtain rfl : xs = [] := length_eq_zero_iff.mp h0
    cases last with
    | none => simp at h
    | some => simp
  | case2 xs _ ih =>
    rw [peaks_of_pos node (by omega)]
    rcases Nat.mod_two_eq_zero_or_one xs.length with he | ho
    · have hn : oddLast xs = none := by
        simpa [he] using isSome_oddLast xs
      rw [hn, reduceOption_cons_of_none, ih last (.inl (by rw [length_pairs]; omega)),
        treeHash_pairs_append empty node he]
    · obtain ⟨ys, z, rfl, hys⟩ := exists_append_of_odd ho
      rw [oddLast_append hys, oddLast, reduceOption_cons_of_some,
        foldl_cons, ih _ (.inr rfl), pairs_append node hys, show pairs node [z] = [] from rfl,
        append_nil, treeHash_pairs_append empty node hys]
      cases last with
      | none => simp
      | some w =>
        have hj := treeHash_level empty node (ys ++ [z, w]) (by simp)
        rw [pairs_append node hys, oddLast_append hys] at hj
        rw [← treeHash_pairs_append empty node hys]
        simpa using hj

end Pigeonpost.MerkleTree
