import Pigeonpost.Verification.Log.Tree
import Pigeonpost.Verification.Shared.SymbolicHash

/-! # Consistency proofs

The verifier climbs index bits from the leaves upwards while the prover recurses
from the root down. The last proof step is where the two meet: below it lies one
of the two subtrees of the split. -/

namespace Pigeonpost

open MerkleTree MerkleLog List

variable {node last d a b m : ℕ}

/-! ## The two index loops -/

theorem skipLevels_of_odd (h : node % 2 = 1) : skipLevels node last = (node, last) := by
  rw [skipLevels, if_neg (by omega)]

theorem skipLevels_of_even (last : ℕ) (hp : 0 < node) (h : node % 2 = 0) :
    skipLevels node last = skipLevels (node / 2) (last / 2) := by
  rw [skipLevels, if_pos ⟨by omega, h⟩]

theorem stripRight_of_odd (last : ℕ) (h : node % 2 = 1) :
    stripRight node last = stripRight (node / 2) (last / 2) := by
  rw [stripRight, if_pos h]

theorem stripRight_of_even (last : ℕ) (h : node % 2 = 0) : stripRight node last = (node, last) := by
  rw [stripRight, if_neg (by omega)]

theorem skipLevels_two_pow (d : ℕ) : skipLevels (2 ^ d) (2 ^ d) = (1, 1) := by
  induction d with
  | zero => exact skipLevels_of_odd rfl
  | succ d ih =>
    have hh : 2 ^ (d + 1) / 2 = 2 ^ d := by rw [pow_succ]; omega
    have hp : 0 < 2 ^ d := Nat.two_pow_pos d
    rw [skipLevels_of_even _ (by omega) (by rw [pow_succ]; omega), hh, ih]

/-- Below a complete left subtree the inner loop runs as in the right subtree
alone. -/
theorem skipLevels_two_pow_add (ha : 0 < a) (hab : a ≤ b) (hb : b < 2 ^ d) :
    ∃ e, (skipLevels a b).1 ≤ (skipLevels a b).2 ∧ (skipLevels a b).2 < 2 ^ (e + 1) ∧
      skipLevels (2 ^ d + a) (2 ^ d + b) =
        (2 ^ (e + 1) + (skipLevels a b).1, 2 ^ (e + 1) + (skipLevels a b).2) := by
  induction d generalizing a b with
  | zero => omega
  | succ d ih =>
    by_cases ho : a % 2 = 1
    · refine ⟨d, ?_⟩
      rw [skipLevels_of_odd ho, skipLevels_of_odd (by omega)]
      exact ⟨hab, hb, rfl⟩
    · obtain ⟨e, hle, hlt, heq⟩ := ih (a := a / 2) (b := b / 2) (by omega) (by omega) (by omega)
      refine ⟨e, ?_⟩
      rw [skipLevels_of_even b ha (by omega),
        skipLevels_of_even (2 ^ (d + 1) + b) (by omega) (by omega),
        show (2 ^ (d + 1) + a) / 2 = 2 ^ d + a / 2 by omega,
        show (2 ^ (d + 1) + b) / 2 = 2 ^ d + b / 2 by omega]
      exact ⟨hle, hlt, heq⟩

/-- Stripping an index of the complete left subtree, against the last index of
the whole tree and against its own last index. -/
theorem stripRight_left (ha : a < 2 ^ d) (hb : 2 ^ d ≤ b) (hlt : b < 2 ^ (d + 1)) :
    ∃ e, (stripRight a b).1 < 2 ^ e ∧ 2 ^ e ≤ (stripRight a b).2 ∧
      (stripRight a b).2 < 2 ^ (e + 1) ∧
      stripRight a (2 ^ d - 1) = ((stripRight a b).1, 2 ^ e - 1) := by
  induction d generalizing a b with
  | zero =>
    refine ⟨0, ?_⟩
    rw [stripRight_of_even _ (by omega), stripRight_of_even _ (by omega)]
    exact ⟨ha, hb, hlt, rfl⟩
  | succ d ih =>
    by_cases ho : a % 2 = 1
    · obtain ⟨e, h1, h2, h3, h4⟩ := ih (a := a / 2) (b := b / 2) (by omega) (by omega) (by omega)
      have hh : (2 ^ (d + 1) - 1) / 2 = 2 ^ d - 1 := by omega
      refine ⟨e, ?_⟩
      rw [stripRight_of_odd b ho, stripRight_of_odd (2 ^ (d + 1) - 1) ho, hh]
      exact ⟨h1, h2, h3, h4⟩
    · refine ⟨d + 1, ?_⟩
      rw [stripRight_of_even b (by omega), stripRight_of_even _ (by omega)]
      exact ⟨ha, hb, hlt, rfl⟩

/-- Stripping an index of the right subtree that is not its last one. -/
theorem stripRight_right (hab : a < b) (hb : b < 2 ^ d) :
    ∃ e, (stripRight a b).1 ≤ (stripRight a b).2 ∧ (stripRight a b).2 < 2 ^ e ∧
      stripRight (2 ^ d + a) (2 ^ d + b) =
        (2 ^ e + (stripRight a b).1, 2 ^ e + (stripRight a b).2) := by
  induction d generalizing a b with
  | zero => omega
  | succ d ih =>
    by_cases ho : a % 2 = 1
    · obtain ⟨e, hle, hlt, heq⟩ := ih (a := a / 2) (b := b / 2) (by omega) (by omega)
      refine ⟨e, ?_⟩
      rw [stripRight_of_odd b ho, stripRight_of_odd (2 ^ (d + 1) + b) (by omega),
        show (2 ^ (d + 1) + a) / 2 = 2 ^ d + a / 2 by omega,
        show (2 ^ (d + 1) + b) / 2 = 2 ^ d + b / 2 by omega]
      exact ⟨hle, hlt, heq⟩
    · refine ⟨d + 1, ?_⟩
      rw [stripRight_of_even b (by omega), stripRight_of_even _ (by omega)]
      exact ⟨hab.le, hb, rfl⟩

theorem stripRight_last (d : ℕ) : stripRight (2 ^ d - 1) (2 ^ d - 1) = (0, 0) := by
  induction d with
  | zero => exact stripRight_of_even _ rfl
  | succ d ih =>
    have hp : 0 < 2 ^ d := Nat.two_pow_pos d
    have hh : (2 ^ (d + 1) - 1) / 2 = 2 ^ d - 1 := by omega
    rw [stripRight_of_odd _ (by omega), hh, ih]

/-! ## The climb over a proof -/

variable {H : Type*} [Sha256 H]

theorem climbConsistency_nil (node last : ℕ) (o w : H) :
    climbConsistency [] node last o w = if last = 0 then some (o, w) else none := rfl

variable {p o w : H} {ps : List H}

theorem climbConsistency_both (hl : last ≠ 0) (h : node % 2 = 1 ∨ node = last) :
    climbConsistency (p :: ps) node last o w =
      climbConsistency ps ((skipLevels node last).1 / 2) ((skipLevels node last).2 / 2)
        (nodeHash p o) (nodeHash p w) := by
  rw [climbConsistency, if_neg hl, if_pos h]

theorem climbConsistency_new (hl : last ≠ 0) (h : ¬(node % 2 = 1 ∨ node = last)) :
    climbConsistency (p :: ps) node last o w =
      climbConsistency ps (node / 2) (last / 2) o (nodeHash w p) := by
  rw [climbConsistency, if_neg hl, if_neg h]

/-- One step inside the complete left subtree is the same step of that subtree
taken alone. -/
theorem climbConsistency_left_step (p o w : H) (hn : node < 2 ^ (d + 1))
    (hl : 2 ^ (d + 1) ≤ last) (hlt : last < 2 ^ (d + 2)) :
    ∃ node' last' o' w', node' < 2 ^ d ∧ 2 ^ d ≤ last' ∧ last' < 2 ^ (d + 1) ∧ ∀ ps,
      climbConsistency (p :: ps) node last o w = climbConsistency ps node' last' o' w' ∧
      climbConsistency (p :: ps) node (2 ^ (d + 1) - 1) o w =
        climbConsistency ps node' (2 ^ d - 1) o' w' := by
  have hp' : 2 ^ (d + 2) = 2 ^ (d + 1) * 2 := pow_succ 2 (d + 1)
  have hh : (2 ^ (d + 1) - 1) / 2 = 2 ^ d - 1 := by omega
  by_cases ho : node % 2 = 1
  · refine ⟨node / 2, last / 2, nodeHash p o, nodeHash p w, by omega, by omega, by omega, ?_⟩
    intro ps
    rw [climbConsistency_both (by omega) (.inl ho), climbConsistency_both (by omega) (.inl ho),
      skipLevels_of_odd ho, skipLevels_of_odd ho]
    exact ⟨rfl, by simp only [hh]⟩
  · refine ⟨node / 2, last / 2, o, nodeHash w p, by omega, by omega, by omega, ?_⟩
    intro ps
    rw [climbConsistency_new (by omega) (by omega), climbConsistency_new (by omega) (by omega), hh]
    exact ⟨rfl, rfl⟩

/-- From inside the complete left subtree the last step joins the right subtree
to the new root only. -/
theorem climbConsistency_left (ps : List H) (s o w : H)
    (hn : node < 2 ^ d) (hl : 2 ^ d ≤ last) (hlt : last < 2 ^ (d + 1)) :
    climbConsistency (ps ++ [s]) node last o w =
      (climbConsistency ps node (2 ^ d - 1) o w).map fun r => (r.1, nodeHash r.2 s) := by
  induction d generalizing ps node last o w with
  | zero =>
    obtain rfl : node = 0 := by omega
    obtain rfl : last = 1 := by omega
    cases ps with
    | nil => rw [nil_append, climbConsistency_new (by omega) (by omega)]; rfl
    | cons p ps =>
      rw [cons_append, climbConsistency_new (by omega) (by omega)]
      cases ps <;> rfl
  | succ d ih =>
    cases ps with
    | nil =>
      obtain ⟨node', last', o', w', _, hl', _, hs⟩ := climbConsistency_left_step s o w hn hl hlt
      rw [nil_append, (hs []).1, climbConsistency_nil, climbConsistency_nil,
        if_neg (by omega), if_neg (by rw [pow_succ]; omega)]
      rfl
    | cons p ps =>
      obtain ⟨node', last', o', w', hn', hl', hlt', hs⟩ :=
        climbConsistency_left_step p o w hn hl hlt
      rw [cons_append, (hs _).1, (hs _).2]
      exact ih ps o' w' hn' hl' hlt'

/-- One step inside the right subtree is the same step of that subtree taken
alone. -/
theorem climbConsistency_right_step (p o w : H) (hab : a ≤ b) (hp : 0 < b) (hb : b < 2 ^ d) :
    ∃ e a' b' o' w', a' ≤ b' ∧ b' < 2 ^ e ∧ ∀ ps,
      climbConsistency (p :: ps) (2 ^ d + a) (2 ^ d + b) o w =
        climbConsistency ps (2 ^ e + a') (2 ^ e + b') o' w' ∧
      climbConsistency (p :: ps) a b o w = climbConsistency ps a' b' o' w' := by
  obtain ⟨d, rfl⟩ : ∃ k, d = k + 1 := by
    cases d with
    | zero => omega
    | succ k => exact ⟨k, rfl⟩
  by_cases hboth : a % 2 = 1 ∨ a = b
  · obtain ⟨e, hle, hlt, heq⟩ := skipLevels_two_pow_add (by omega) hab hb
    refine ⟨e, (skipLevels a b).1 / 2, (skipLevels a b).2 / 2, nodeHash p o, nodeHash p w,
      by omega, by omega, ?_⟩
    intro ps
    rw [climbConsistency_both (by omega) (by omega), heq, climbConsistency_both (by omega) hboth]
    refine ⟨?_, rfl⟩
    congr 1
    · simp only
      omega
    · simp only
      omega
  · refine ⟨d, a / 2, b / 2, o, nodeHash w p, by omega, by omega, ?_⟩
    intro ps
    rw [climbConsistency_new (by omega) (by omega), climbConsistency_new (by omega) hboth]
    refine ⟨?_, rfl⟩
    congr 1
    · omega
    · omega

/-- From inside the right subtree the last step joins the complete left subtree
to both roots. -/
theorem climbConsistency_right (ps : List H) (s o w : H) (hab : a ≤ b) (hb : b < 2 ^ d) :
    climbConsistency (ps ++ [s]) (2 ^ d + a) (2 ^ d + b) o w =
      (climbConsistency ps a b o w).map fun r => (nodeHash s r.1, nodeHash s r.2) := by
  induction ps generalizing d a b o w with
  | nil =>
    rw [nil_append, climbConsistency_nil]
    rcases Nat.eq_zero_or_pos b with rfl | hp
    · obtain rfl : a = 0 := by omega
      rw [climbConsistency_both (by omega) (.inr rfl), Nat.add_zero, skipLevels_two_pow]
      rfl
    · obtain ⟨e, a', b', o', w', _, _, hs⟩ := climbConsistency_right_step s o w hab hp hb
      rw [(hs []).1, climbConsistency_nil, if_neg (by omega), if_neg (by omega)]
      rfl
  | cons p ps ih =>
    rw [cons_append]
    rcases Nat.eq_zero_or_pos b with rfl | hp
    · obtain rfl : a = 0 := by omega
      rw [climbConsistency_both (by omega) (.inr rfl), Nat.add_zero, skipLevels_two_pow]
      cases ps <;> rfl
    · obtain ⟨e, a', b', o', w', ha', hb', hs⟩ := climbConsistency_right_step p o w hab hp hb
      rw [(hs _).1, (hs _).2]
      exact ih o' w' ha' hb'

/-! ## A proof as the two roots it rebuilds -/

/-- The two roots a proof rebuilds for the sizes `m` and `n` from its first hash. -/
def rebuildRoots (m n : ℕ) (steps : List H) (first : H) : Option (H × H) :=
  climbConsistency steps (stripRight (m - 1) (n - 1)).1 (stripRight (m - 1) (n - 1)).2 first first

theorem rebuildRoots_complete (d : ℕ) (steps : List H) (first : H) :
    rebuildRoots (2 ^ d) (2 ^ d) steps first =
      if steps = [] then some (first, first) else none := by
  rw [rebuildRoots, stripRight_last]
  cases steps with
  | nil => rfl
  | cons => rw [climbConsistency, if_pos rfl, if_neg (cons_ne_nil _ _)]

theorem rebuildRoots_left {r : ℕ} (hm : 0 < m) (hle : m ≤ 2 ^ d) (hr : 0 < r)
    (hr' : r ≤ 2 ^ d) (ps : List H) (s first : H) :
    rebuildRoots m (2 ^ d + r) (ps ++ [s]) first =
      (rebuildRoots m (2 ^ d) ps first).map fun q => (q.1, nodeHash q.2 s) := by
  obtain ⟨e, h1, h2, h3, h4⟩ := stripRight_left (d := d) (a := m - 1) (b := 2 ^ d + r - 1)
    (by omega) (by omega) (by rw [pow_succ]; omega)
  rw [rebuildRoots, rebuildRoots, h4]
  exact climbConsistency_left ps s first first h1 h2 h3

theorem rebuildRoots_right {r : ℕ} (hm : 0 < m) (hlt : m < r) (hr : r ≤ 2 ^ d)
    (ps : List H) (s first : H) :
    rebuildRoots (2 ^ d + m) (2 ^ d + r) (ps ++ [s]) first =
      (rebuildRoots m r ps first).map fun q => (nodeHash s q.1, nodeHash s q.2) := by
  obtain ⟨e, h1, h2, h3⟩ := stripRight_right (d := d) (a := m - 1) (b := r - 1)
    (by omega) (by omega)
  rw [rebuildRoots, rebuildRoots, show 2 ^ d + m - 1 = 2 ^ d + (m - 1) by omega,
    show 2 ^ d + r - 1 = 2 ^ d + (r - 1) by omega, h3]
  exact climbConsistency_right ps s first first h1 h2

/-- A proof between two different sizes is never without steps. -/
theorem rebuildRoots_nil {n : ℕ} (hm : 0 < m) (hlt : m < n) (first : H) :
    rebuildRoots m n [] first = none := by
  have hl : (stripRight (m - 1) (n - 1)).1 < (stripRight (m - 1) (n - 1)).2 := by
    have hs : m - 1 < n - 1 := by omega
    generalize m - 1 = a at hs ⊢
    generalize n - 1 = b at hs ⊢
    induction a, b using stripRight.induct with
    | case1 a b ho ih =>
      rw [stripRight_of_odd b ho]
      exact ih (by omega)
    | case2 _ b =>
      rw [stripRight_of_even b (by omega)]
      exact hs
  rw [rebuildRoots, climbConsistency_nil, if_neg (by omega)]

/-- The old sizes a subtree is asked about: smaller ones, and its own size when
it is complete. -/
def OldSize (m n : ℕ) : Prop := 0 < m ∧ (m < n ∨ m = n ∧ ∃ d, n = 2 ^ d)

theorem OldSize.left (hm : 0 < m) (hle : m ≤ 2 ^ d) : OldSize m (2 ^ d) := by
  refine ⟨hm, ?_⟩
  rcases Nat.lt_or_eq_of_le hle with h | h
  · exact .inl h
  · exact .inr ⟨h, d, rfl⟩

theorem OldSize.of_one (h : OldSize m 1) : m = 1 := by
  obtain ⟨hp, hlt | ⟨heq, -⟩⟩ := h
  · omega
  · exact heq

/-! ## Soundness -/

variable {leaves left right : List H}

theorem rebuildRoots_sound_complete {steps : List H} {first o : H} (hm : m = leaves.length)
    (hd : leaves.length = 2 ^ d)
    (h : rebuildRoots m leaves.length steps first = some (o, logRoot leaves)) :
    o = logRoot (leaves.take m) := by
  rw [hm, take_length]
  rw [hm, hd, rebuildRoots_complete] at h
  cases steps with
  | nil =>
    obtain ⟨rfl, hr⟩ := Prod.mk.inj (Option.some.inj h)
    exact hr
  | cons => cases h

/-- The two rebuilt roots belong together: when the new one is the root of a list
of leaves, the old one is the root of its prefix. -/
theorem rebuildRoots_sound (hn : Function.Injective2 (nodeHash (H := H))) :
    ∀ leaves : List H, leaves ≠ [] → ∀ (m : ℕ) (steps : List H) (first o : H),
      OldSize m leaves.length →
      rebuildRoots m leaves.length steps first = some (o, logRoot leaves) →
      o = logRoot (leaves.take m) := by
  refine tree_induction ?_ ?_
  · intro x m steps first o hm h
    exact rebuildRoots_sound_complete (d := 0) hm.of_one rfl h
  · intro d left right hl hr hle ihl ihr m steps first o hm h
    rcases hm with ⟨hp, hlt | ⟨heq, e, he⟩⟩
    · have hlen : (left ++ right).length = 2 ^ d + right.length := by simp [hl]
      rw [hlen] at hlt h
      rw [logRoot_append hl hr hle] at h
      rcases eq_nil_or_concat steps with rfl | ⟨ps, s, rfl⟩
      · rw [rebuildRoots_nil hp hlt] at h
        cases h
      · rw [concat_eq_append] at h
        rcases Nat.lt_or_ge (2 ^ d) m with hb | hs
        · obtain ⟨k, rfl⟩ : ∃ k, m = 2 ^ d + k := ⟨m - 2 ^ d, by omega⟩
          rw [rebuildRoots_right (by omega) (by omega) hle, Option.map_eq_some_iff] at h
          obtain ⟨⟨o', w'⟩, hrest, heq⟩ := h
          obtain ⟨rfl, hw⟩ := Prod.mk.inj heq
          obtain ⟨rfl, rfl⟩ := hn hw
          have ht : (left ++ right).take (2 ^ d + k) = left ++ right.take k := by
            rw [← hl, take_length_add_append]
          have hk : (right.take k).length = k := by
            rw [length_take]
            omega
          rw [ihr k ps first o' ⟨by omega, .inl (by omega)⟩ hrest, ht,
            logRoot_append hl (by omega) (by omega)]
        · rw [rebuildRoots_left hp hs hr hle, Option.map_eq_some_iff] at h
          obtain ⟨⟨o', w'⟩, hrest, heq⟩ := h
          obtain ⟨rfl, hw⟩ := Prod.mk.inj heq
          obtain ⟨rfl, rfl⟩ := hn hw
          rw [← hl] at hrest hs
          rw [take_append_of_le_length hs]
          exact ihl m ps first o' (hl ▸ OldSize.left hp (hl ▸ hs)) hrest
    · exact rebuildRoots_sound_complete heq he h

/-! ## Completeness -/

/-- What the prover emits for an old size of a subtree: a first hash and steps
that rebuild both roots. At the root of the tree the first hash is left out
exactly when it is the old root itself. -/
def Rebuilds (leaves : List H) (m : ℕ) : Prop :=
  ∃ first steps, consistency leaves m false = first :: steps ∧
    consistency leaves m true = (if m.isPowerOfTwo then steps else first :: steps) ∧
    (m.isPowerOfTwo → first = logRoot (leaves.take m)) ∧
    rebuildRoots m leaves.length steps first = some (logRoot (leaves.take m), logRoot leaves)

theorem rebuilds_complete (hd : leaves.length = 2 ^ d) : Rebuilds leaves leaves.length := by
  refine ⟨logRoot leaves, [], ?_, ?_, ?_, ?_⟩
  · rw [consistency, if_pos rfl, rootRange_eq_logRoot]
    rfl
  · rw [consistency, if_pos rfl, if_pos rfl, if_pos ⟨d, hd⟩]
  · intro _
    rw [take_length]
  · rw [take_length, hd, rebuildRoots_complete, if_pos rfl]

theorem rebuilds_left (hl : left.length = 2 ^ d)
    (hr : 0 < right.length) (hle : right.length ≤ 2 ^ d) (hm : 0 < m) (hs : m ≤ 2 ^ d)
    (h : Rebuilds left m) : Rebuilds (left ++ right) m := by
  obtain ⟨first, steps, hinner, hroot, hf, hreb⟩ := h
  have ht : (left ++ right).take m = left.take m := take_append_of_le_length (by omega)
  have hlen : (left ++ right).length = 2 ^ d + right.length := by simp [hl]
  refine ⟨first, steps ++ [logRoot right], ?_, ?_, ?_, ?_⟩
  · rw [consistency_append_left hl hr hle hs, hinner, cons_append]
  · rw [consistency_append_left hl hr hle hs, hroot]
    split
    · rfl
    · rfl
  · rwa [ht]
  · rw [hl] at hreb
    rw [hlen, rebuildRoots_left hm hs hr hle, hreb, ht, logRoot_append hl hr hle]
    rfl

theorem rebuilds_right {k : ℕ} (hl : left.length = 2 ^ d)
    (hr : 0 < right.length) (hle : right.length ≤ 2 ^ d) (hk : 0 < k)
    (hlt : k < right.length) (h : Rebuilds right k) : Rebuilds (left ++ right) (2 ^ d + k) := by
  obtain ⟨first, steps, hinner, -, -, hreb⟩ := h
  have ht : (left ++ right).take (2 ^ d + k) = left ++ right.take k := by
    rw [← hl, take_length_add_append]
  have hlen : (left ++ right).length = 2 ^ d + right.length := by simp [hl]
  have hklen : (right.take k).length = k := by
    rw [length_take]
    omega
  have hn : ¬(2 ^ d + k).isPowerOfTwo := by
    rintro ⟨e, he⟩
    have hlow : d < e := (Nat.pow_lt_pow_iff_right (by omega : 1 < 2)).mp (by omega)
    have hh : e < d + 1 :=
      (Nat.pow_lt_pow_iff_right (by omega : 1 < 2)).mp (by rw [pow_succ 2 d]; omega)
    omega
  refine ⟨first, steps ++ [logRoot left], ?_, ?_, ?_, ?_⟩
  · rw [consistency_append_right hl hr hle hk hlt, hinner, cons_append]
  · rw [consistency_append_right hl hr hle hk hlt, hinner, if_neg hn, cons_append]
  · intro hp
    exact absurd hp hn
  · rw [hlen, rebuildRoots_right hk hlt hle, hreb, ht,
      logRoot_append hl hr hle, logRoot_append hl (by omega) (by omega)]
    rfl

theorem rebuilds_of_oldSize : ∀ leaves : List H, leaves ≠ [] →
    ∀ m, OldSize m leaves.length → Rebuilds leaves m := by
  refine tree_induction ?_ ?_
  · intro x m hm
    obtain rfl : m = [x].length := hm.of_one
    exact rebuilds_complete (d := 0) rfl
  · intro d left right hl hr hle ihl ihr m hm
    rcases hm with ⟨hp, hlt | ⟨rfl, e, he⟩⟩
    · rw [length_append, hl] at hlt
      rcases Nat.lt_or_ge (2 ^ d) m with hb | hs
      · obtain ⟨k, rfl⟩ : ∃ k, m = 2 ^ d + k := ⟨m - 2 ^ d, by omega⟩
        exact rebuilds_right hl hr hle (by omega) (by omega) (ihr k ⟨by omega, .inl (by omega)⟩)
      · exact rebuilds_left hl hr hle hp hs (ihl m (hl ▸ OldSize.left hp hs))
    · exact rebuilds_complete he

/-! ## The verifier -/

section Verifier

variable [DecidableEq H] {n : ℕ}

theorem verifyConsistency_self (hn : 0 < n) (oldRoot newRoot : H) (proof : List H) :
    verifyConsistency n oldRoot n newRoot proof = true ↔ proof = [] ∧ oldRoot = newRoot := by
  rw [verifyConsistency, if_neg (by omega)]
  simp

theorem verifyConsistency_of_lt (hm : 0 < m) (hlt : m < n) (oldRoot newRoot : H) (proof : List H) :
    verifyConsistency m oldRoot n newRoot proof = true ↔
      ∃ first steps, (if m.isPowerOfTwo then oldRoot :: proof else proof) = first :: steps ∧
        rebuildRoots m n steps first = some (oldRoot, newRoot) := by
  rw [verifyConsistency, if_neg (by omega), if_neg (by omega)]
  generalize (if m.isPowerOfTwo then oldRoot :: proof else proof) = hashes
  cases hashes with
  | nil => simp
  | cons first steps =>
    simp only [cons.injEq]
    constructor
    · intro h
      refine ⟨first, steps, ⟨rfl, rfl⟩, ?_⟩
      cases hr : rebuildRoots m n steps first with
      | none =>
        rw [rebuildRoots] at hr
        simp [hr] at h
      | some =>
        rw [rebuildRoots] at hr
        simpa [hr, Prod.ext_iff] using h
    · rintro ⟨_, _, ⟨rfl, rfl⟩, h⟩
      rw [rebuildRoots] at h
      simp [h]

theorem verifyConsistency_sound (hn : Function.Injective2 (nodeHash (H := H))) {oldRoot : H}
    {proof : List H} (h : verifyConsistency m oldRoot leaves.length (logRoot leaves) proof = true) :
    oldRoot = logRoot (leaves.take m) := by
  have hm : 0 < m ∧ m ≤ leaves.length := by
    rw [verifyConsistency] at h
    split at h
    · cases h
    · omega
  rcases Nat.lt_or_eq_of_le hm.2 with hlt | rfl
  · obtain ⟨first, steps, -, hr⟩ := (verifyConsistency_of_lt hm.1 hlt _ _ _).mp h
    exact rebuildRoots_sound hn leaves (ne_nil_of_length_pos (by omega)) m steps first
      oldRoot ⟨hm.1, .inl hlt⟩ hr
  · rw [take_length]
    exact ((verifyConsistency_self hm.1 _ _ _).mp h).2

/-- The prover's own proof is accepted. -/
theorem verifyConsistency_consistency (hm : 0 < m) (hle : m ≤ leaves.length) :
    verifyConsistency m (logRoot (leaves.take m)) leaves.length (logRoot leaves)
      (consistency leaves m true) = true := by
  rcases Nat.lt_or_eq_of_le hle with hlt | rfl
  · obtain ⟨first, steps, -, hroot, hf, hr⟩ :=
      rebuilds_of_oldSize leaves (ne_nil_of_length_pos (by omega)) m ⟨hm, .inl hlt⟩
    refine (verifyConsistency_of_lt hm hlt _ _ _).mpr ⟨first, steps, ?_, hr⟩
    rw [hroot]
    by_cases hp : m.isPowerOfTwo
    · rw [if_pos hp, if_pos hp, hf hp]
    · rw [if_neg hp, if_neg hp]
  · refine (verifyConsistency_self hm _ _ _).mpr ⟨?_, by rw [take_length]⟩
    rw [consistency, if_pos rfl, if_pos rfl]

/-- Consistency proofs are sound and complete: against the root of `leaves` some
proof is accepted for an old root exactly when that is the root of the prefix,
and the log's own proofs are accepted. -/
theorem verifyConsistency_sound_complete (hnode : Function.Injective2 (nodeHash (H := H))) :
    (∀ (leaves : List H) (m : ℕ) (oldRoot : H), 1 ≤ m → m ≤ leaves.length →
      ((∃ proof, verifyConsistency m oldRoot leaves.length (rootRange leaves) proof = true) ↔
        oldRoot = rootRange (leaves.take m))) ∧
    ∀ (log : MerkleLog H) (m n : ℕ), 1 ≤ m → m ≤ n → n ≤ log.size →
      ∃ proof, log.consistencyProof m n = some proof ∧
        verifyConsistency m (rootRange (log.leaves.take m)) n
          (rootRange (log.leaves.take n)) proof = true := by
  simp only [rootRange_eq_logRoot]
  constructor
  · intro leaves m oldRoot hm hle
    constructor
    · rintro ⟨proof, h⟩
      exact verifyConsistency_sound hnode h
    · rintro rfl
      exact ⟨_, verifyConsistency_consistency hm hle⟩
  · intro log m n hm hmn hn
    unfold size at hn
    have hl : (log.leaves.take n).length = n := by
      rw [length_take]
      omega
    refine ⟨consistency (log.leaves.take n) m true, ?_, ?_⟩
    · rw [consistencyProof, if_neg (by omega)]
    · have ha := verifyConsistency_consistency hm (hmn.trans_eq hl.symm)
      rwa [hl, take_take, Nat.min_eq_left hmn] at ha

end Verifier

theorem verifyConsistency_sound_complete_symbolic :
    (∃ proof, verifyConsistency 2 (SymbolicHash.node .empty .other) 3
        (rootRange [.empty, .other, .leaf []]) proof = true) ∧
      ¬∃ proof, verifyConsistency 2 SymbolicHash.other 3
        (rootRange [.empty, .other, .leaf []]) proof = true := by
  have hs : split 2 = 1 := split_eq_splitPoint (by omega)
  have hr : rootRange [SymbolicHash.empty, .other] = .node .empty .other := by
    simp [rootRange, hs]
  have hiff := fun oldRoot => (verifyConsistency_sound_complete
    SymbolicHash.nodeHash_injective2).1 [.empty, .other, .leaf []] 2 oldRoot (by decide) (by decide)
  constructor
  · exact (hiff _).mpr hr.symm
  · intro h
    have heq := ((hiff _).mp h).trans hr
    cases heq

end Pigeonpost
