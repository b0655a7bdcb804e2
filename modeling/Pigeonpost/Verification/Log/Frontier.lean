import Mathlib.Data.List.Induction
import Pigeonpost.Library.MerklePeaks
import Pigeonpost.Verification.Log.Tree
import Pigeonpost.Verification.Shared.SymbolicHash

/-! # The compact frontier

The frontier of a list of leaves holds its peaks. Appending keeps it that way,
and its root is the root of the list. -/

namespace Pigeonpost.MerkleFrontier

open MerkleTree List

variable {H : Type*} (done : List (Option H))

variable [Sha256 H]

def ofLeaves (leaves : List H) : MerkleFrontier H :=
  ⟨leaves.length, peakHashes nodeHash leaves⟩

@[simp] theorem ofLeaves_size (leaves : List H) : (ofLeaves leaves).size = leaves.length := rfl

@[simp] theorem ofLeaves_peaks (leaves : List H) :
    (ofLeaves leaves).peaks = peakHashes nodeHash leaves := rfl

@[simp] theorem ofLeaves_nil : ofLeaves ([] : List H) = new := by
  simp [ofLeaves, new]

variable {leaves : List H} {f : MerkleFrontier H}

theorem validate_ofLeaves (h : leaves.length < 2 ^ 64) : (ofLeaves leaves).validate = true := by
  have hl := length_peaks_le nodeHash leaves 64 h
  have hs : leaves.length >>> (peakHashes nodeHash leaves).length = 0 := by
    rw [Nat.shiftRight_eq_div_pow]
    exact Nat.div_eq_of_lt (lt_two_pow_length_peaks nodeHash leaves)
  have hb : (peakHashes nodeHash leaves).zipIdx.all
      (fun entry => entry.1.isSome == leaves.length.testBit entry.2) = true := by
    rw [all_eq_true]
    rintro ⟨peak, level⟩ hm
    obtain ⟨hlt, hp⟩ := mem_zipIdx' hm
    simp [hp, isSome_getElem_peaks]
  simp [validate, u64Bits, hl, hs, hb]

/-! ## Appending -/

theorem carry_peaks (leaves : List H) (leaf : H) : ∃ ps level hash,
      carry (done ++ peakHashes nodeHash leaves) done.length leaves.length leaf =
        some (ps, level, hash) ∧
      place ps level hash = done ++ peakHashes nodeHash (leaves ++ [leaf]) := by
  induction leaves using peakHashes.induct (nodeHash (H := H)) generalizing done leaf with
  | case1 leaves h =>
    obtain rfl : leaves = [] := length_eq_zero_iff.mp h
    refine ⟨done, done.length, leaf, ?_, ?_⟩
    · rw [carry]
      simp
    · rw [peaks_of_pos nodeHash (by simp)]
      simp [place]
  | case2 leaves h ih =>
    rcases Nat.mod_two_eq_zero_or_one leaves.length with he | ho
    · refine ⟨done ++ peakHashes nodeHash leaves, done.length, leaf, ?_, ?_⟩
      · rw [carry, if_neg (by omega)]
      · have hl : peakHashes nodeHash (leaves ++ [leaf]) =
            some leaf :: peakHashes nodeHash (pairs nodeHash leaves) := by
          rw [peaks_of_pos nodeHash (by simp), oddLast_append he, pairs_append nodeHash he]
          simp
        rw [peaks_of_pos nodeHash (by omega), hl]
        simp [place]
    · obtain ⟨front, last, rfl, hf⟩ := exists_append_of_odd ho
      obtain ⟨ps, level, hash, hc, hp⟩ := ih (done ++ [none]) (nodeHash last leaf)
      have hpeaks : peakHashes nodeHash (front ++ [last]) =
          some last :: peakHashes nodeHash (pairs nodeHash (front ++ [last])) := by
        rw [peaks_of_pos nodeHash (by simp), oddLast_append hf, oddLast]
      have hl : peakHashes nodeHash (front ++ [last] ++ [leaf]) =
          none ::
            peakHashes nodeHash (pairs nodeHash (front ++ [last]) ++ [nodeHash last leaf]) := by
        rw [peaks_of_pos nodeHash (by simp), append_assoc, oddLast_append hf,
          pairs_append nodeHash hf, pairs_append nodeHash hf]
        simp
      refine ⟨ps, level, hash, ?_, ?_⟩
      · rw [length_pairs] at hc
        rw [carry, if_pos ho, hpeaks]
        simpa using hc
      · rw [hp, hl, append_assoc]
        rfl

theorem appendHash_ofLeaves (h : leaves.length < u64Max) (leaf : H) :
    (ofLeaves leaves).appendHash leaf = some (ofLeaves (leaves ++ [leaf]), leaves.length) := by
  have hv : (ofLeaves leaves).validate = true := validate_ofLeaves (by unfold u64Max at h; omega)
  have hs : ((ofLeaves leaves).size == u64Max) = false := by
    simpa using h.ne
  obtain ⟨ps, level, hash, hc, hp⟩ := carry_peaks [] leaves leaf
  rw [nil_append, length_nil] at hc
  rw [appendHash, hv, hs]
  simp [hc, hp, ofLeaves]

/-! ## The root -/

theorem root_ofLeaves (h : leaves.length < 2 ^ 64) :
    (ofLeaves leaves).root = some (logRoot leaves) := by
  rw [root, validate_ofLeaves h]
  rcases Nat.eq_zero_or_pos leaves.length with h0 | hp
  · simp [length_eq_zero_iff.mp h0, logRoot, new]
  · have hf := foldl_peaks emptyRoot nodeHash leaves none (.inl hp)
    rw [Option.toList_none, append_nil] at hf
    rw [if_neg (by simp), if_neg (by simpa using hp.ne')]
    exact hf

/-! ## Appending in place -/

omit [Sha256 H] in
theorem exists_peak_of_testBit (hf : f.size < 2 ^ 64) (hv : f.validate = true) {level : ℕ}
    (hb : f.size.testBit level = true) : ∃ peak, f.peaks[level]? = some (some peak) := by
  simp only [validate, Bool.and_eq_true, Bool.or_eq_true, beq_iff_eq, all_eq_true] at hv
  obtain ⟨⟨-, hp⟩, hl⟩ := hv
  have hlt : level < f.peaks.length := by
    have hs : f.size < 2 ^ f.peaks.length := by
      rcases hl with hfull | hz
      · rwa [hfull]
      · rw [Nat.shiftRight_eq_div_pow] at hz
        exact Nat.lt_of_div_eq_zero (Nat.two_pow_pos _) hz
    exact (Nat.pow_lt_pow_iff_right Nat.one_lt_two).mp ((Nat.ge_two_pow_of_testBit hb).trans_lt hs)
  have hpeak := hp (f.peaks[level], level) (mk_mem_zipIdx_iff_getElem?.mpr (by simp [hlt]))
  rw [hb, Option.isSome_iff_exists] at hpeak
  obtain ⟨peak, hpeak⟩ := hpeak
  exact ⟨peak, (getElem?_eq_getElem hlt).trans (congrArg some hpeak)⟩

/-- While every set bit has its peak the loop does not fail. -/
theorem carryInPlace_of_peaks {peaks : List (Option H)} {level occupied : ℕ} (hash : H)
    (h : ∀ i, occupied.testBit i = true → ∃ peak, peaks[level + i]? = some (some peak)) :
    ∃ ps l top, carryInPlace peaks level occupied hash = (ps, some (l, top)) ∧
      carry peaks level occupied hash = some (ps, l, top) := by
  induction peaks, level, occupied, hash using carryInPlace.induct with
  | case1 _ _ _ _ ho _ hl ih =>
    rw [carryInPlace, if_pos ho, carry, if_pos ho, hl]
    refine ih fun i hi => ?_
    obtain ⟨peak, hp⟩ := h (i + 1) (by rwa [Nat.testBit_succ])
    refine ⟨peak, ?_⟩
    rw [getElem?_set_ne (by omega), Nat.add_assoc, Nat.add_comm 1 i, hp]
  | case2 _ _ _ _ ho hn =>
    obtain ⟨peak, hp⟩ := h 0 (by simpa using ho)
    exact absurd hp (hn peak)
  | case3 _ _ _ _ he =>
    rw [carryInPlace, if_neg he, carry, if_neg he]
    exact ⟨_, _, _, rfl, rfl⟩

/-- On a value the code can hold it refuses exactly the invalid ones and the full one, and
then changes nothing. -/
theorem appendHashInPlace_eq (hf : f.size < 2 ^ 64) (leaf : H) :
    (f.validate = false ∨ f.size = u64Max) ∧ f.appendHashInPlace leaf = (f, none) ∨
      ¬(f.validate = false ∨ f.size = u64Max) ∧ ∃ f', f.appendHash leaf = some (f', f.size) ∧
        f.appendHashInPlace leaf = (f', some f.size) := by
  rw [appendHashInPlace, appendHash]
  by_cases hr : f.validate = false ∨ f.size = u64Max
  · exact .inl ⟨hr, if_pos (by simpa using hr)⟩
  · have hv : f.validate = true := by simpa using mt .inl hr
    have hp : ∀ i, f.size.testBit i = true → ∃ peak, f.peaks[0 + i]? = some (some peak) := by
      intro i hi
      rw [Nat.zero_add]
      exact exists_peak_of_testBit hf hv hi
    obtain ⟨ps, level, top, hplace, hc⟩ := carryInPlace_of_peaks leaf hp
    rw [if_neg (by simpa using hr), if_neg (by simpa using hr), hplace, hc]
    exact .inr ⟨hr, _, rfl, rfl⟩

def appended (leaves : List H) : MerkleFrontier H :=
  leaves.foldl (fun f leaf => (f.appendHashInPlace leaf).1) new

theorem appended_eq_ofLeaves (leaves : List H) :
    appended leaves = ofLeaves (leaves.take u64Max) := by
  induction leaves using reverseRecOn with
  | nil => simp [appended]
  | append_singleton leaves leaf ih =>
    rw [appended, foldl_append, ← appended, ih]
    simp only [foldl_cons, foldl_nil]
    have hs : (ofLeaves (leaves.take u64Max)).size = min u64Max leaves.length := by simp
    have hm : u64Max < 2 ^ 64 := by decide
    rcases appendHashInPlace_eq (f := ofLeaves (leaves.take u64Max)) (by omega) leaf with
      ⟨hr, heq⟩ | ⟨hroom, f', ha, heq⟩
    · have hf := hr.resolve_left (by simp [validate_ofLeaves (hs.trans_lt (by omega))])
      rw [heq, take_append_of_le_length (by omega)]
    · have hlt : leaves.length < u64Max := by
        by_contra hge
        exact hroom (.inr (by omega))
      rw [take_of_length_le hlt.le, appendHash_ofLeaves hlt] at ha
      cases ha
      rw [heq, take_of_length_le (l := leaves ++ [leaf]) (by simpa)]

/-- The frontier of any sequence of leaves is valid, counts them and has the root of their log,
and appending fails only on an invalid or a full frontier, which it leaves alone. -/
theorem frontier_refines_log (leaves : List H) (leaf : H) (f : MerkleFrontier H)
    (hf : f.size < 2 ^ 64) :
    ((appended leaves).validate = true ∧ (appended leaves).size = min u64Max leaves.length ∧
      (leaves.length < u64Max → ((appended leaves).appendHashInPlace leaf).2 = some leaves.length) ∧
      (appended leaves).root = some (MerkleLog.mk (leaves.take u64Max)).root) ∧
    ((f.appendHashInPlace leaf).2 = none ↔ f.validate = false ∨ f.size = u64Max) ∧
    ((f.appendHashInPlace leaf).2 = none → (f.appendHashInPlace leaf).1 = f) := by
  have hl : (leaves.take u64Max).length < 2 ^ 64 := (length_take_le _ _).trans_lt (by decide)
  rw [appended_eq_ofLeaves]
  refine ⟨⟨validate_ofLeaves hl, by simp, fun hlt => ?_, ?_⟩, ?_⟩
  · rw [take_of_length_le hlt.le] at hl ⊢
    obtain ⟨hr, -⟩ | ⟨-, f', -, heq⟩ := appendHashInPlace_eq (f := ofLeaves leaves) hl leaf
    · exact absurd hr (by simp [validate_ofLeaves hl, hlt.ne])
    · rw [heq, ofLeaves_size]
  · rw [root_ofLeaves hl, MerkleLog.root_eq_logRoot]
  · obtain ⟨hr, heq⟩ | ⟨hroom, f', -, heq⟩ := appendHashInPlace_eq hf leaf
    · simp [heq, hr]
    · simp [heq, hroom]

/-- Two leaves, and a frontier without the peak of its one leaf. -/
theorem frontier_refines_log_two : (appended [SymbolicHash.leaf [0], .leaf [1]]).size = 2 ∧
      (appendHashInPlace (⟨1, []⟩ : MerkleFrontier SymbolicHash) (.leaf [2])).2 = none := by
  obtain ⟨⟨-, hs, -⟩, hr, -⟩ :=
    frontier_refines_log [.leaf [0], .leaf [1]] (SymbolicHash.leaf [2]) ⟨1, []⟩ (by decide)
  exact ⟨hs, hr.mpr (.inl (by decide))⟩

end Pigeonpost.MerkleFrontier
