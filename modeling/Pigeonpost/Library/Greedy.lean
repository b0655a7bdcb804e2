import Mathlib.Data.List.Induction

/-! # Greedy choice

The elements of a list are taken in their order, up to a count, except those that share a
domain with one taken before. -/

namespace Pigeonpost.Greedy

open List

variable {α δ : Type} [DecidableEq δ] (count : ℕ) (domains : α → List δ)

/-- A round of the loop. Once the count is reached, no round changes anything. -/
def consider (state : List α × List δ) (x : α) : List α × List δ :=
  if state.1.length ≥ count then state
  else if (domains x).any fun domain => domain ∈ state.2 then state
  else (state.1 ++ [x], state.2 ++ domains x)

def choose (xs : List α) : List α := (xs.foldl (consider count domains) ([], [])).1

/-- What holds of the state after the rounds of `xs`. -/
structure Chosen (xs : List α) (state : List α × List δ) : Prop where
  length_le : state.1.length ≤ count
  disjoint : state.1.Pairwise fun x y => (domains x).Disjoint (domains y)
  taken : ∀ domain, domain ∈ state.2 ↔ ∃ x ∈ state.1, domain ∈ domains x
  mem : ∀ x ∈ state.1, x ∈ xs

variable {count domains} {xs ys : List α} {x : α} {state : List α × List δ}

theorem Chosen.consider (h : Chosen count domains xs state) :
    Chosen count domains (xs ++ [x]) (consider count domains state x) := by
  have hk : Chosen count domains (xs ++ [x]) state :=
    ⟨h.length_le, h.disjoint, h.taken, fun y hy => mem_append_left _ (h.mem y hy)⟩
  unfold Greedy.consider
  split_ifs with hf hs
  · exact hk
  · exact hk
  · refine ⟨?_, ?_, fun domain => ?_, fun y hy => ?_⟩
    · rw [length_append]
      exact Nat.not_le.mp hf
    · refine pairwise_append.mpr ⟨h.disjoint, pairwise_singleton _ _, ?_⟩
      rintro y hy _ (_ | ⟨_, ⟨⟩⟩) domain hd hd'
      exact hs (any_eq_true.mpr ⟨domain, hd', decide_eq_true ((h.taken domain).mpr ⟨y, hy, hd⟩)⟩)
    · simp [h.taken, or_and_right, exists_or]
    · exact (mem_append.mp hy).elim (fun hy => mem_append_left _ (h.mem y hy)) (mem_append_right _)

theorem chosen_foldl (xs : List α) :
    Chosen count domains xs (xs.foldl (consider count domains) ([], [])) := by
  induction xs using reverseRecOn with
  | nil => exact ⟨Nat.zero_le _, .nil, by simp, by simp⟩
  | append_singleton xs x ih =>
    rw [foldl_append]
    exact ih.consider

theorem mem_foldl_of_mem (h : x ∈ state.1) : x ∈ (xs.foldl (consider count domains) state).1 := by
  induction xs generalizing state with
  | nil => exact h
  | cons y ys ih =>
    refine ih ?_
    unfold consider
    split_ifs <;> simp [h]

theorem foldl_of_full (h : count ≤ state.1.length) :
    xs.foldl (consider count domains) state = state := by
  induction xs with
  | nil => rfl
  | cons y ys ih => rw [foldl_cons, consider, if_pos h, ih]

/-- An element is left out when the count is reached before it, or when it shares a domain
with one chosen before it. The others are chosen as if it were not there. -/
theorem choose_of_notMem (h : x ∉ choose count domains (xs ++ x :: ys)) :
    choose count domains (xs ++ x :: ys) = choose count domains (xs ++ ys) ∧
      ((choose count domains (xs ++ ys)).length = count ∧
          (∀ y ∈ choose count domains (xs ++ ys), y ∈ xs) ∨
        ∃ y ∈ choose count domains (xs ++ ys), y ∈ xs ∧
          ¬(domains y).Disjoint (domains x)) := by
  have hc : Chosen count domains xs _ := chosen_foldl xs
  simp only [choose, foldl_append, foldl_cons] at h ⊢
  generalize xs.foldl (consider count domains) ([], []) = state at h hc ⊢
  by_cases hf : state.1.length ≥ count
  · rw [consider, if_pos hf, foldl_of_full hf]
    exact ⟨rfl, .inl ⟨Nat.le_antisymm hc.length_le hf, hc.mem⟩⟩
  · by_cases hs : (domains x).any fun domain => domain ∈ state.2
    · rw [consider, if_neg hf, if_pos hs]
      obtain ⟨domain, hd, ht⟩ := any_eq_true.mp hs
      obtain ⟨y, hy, hd'⟩ := (hc.taken domain).mp (of_decide_eq_true ht)
      exact ⟨rfl, .inr ⟨y, mem_foldl_of_mem hy, hc.mem y hy, fun hdis => hdis hd' hd⟩⟩
    · rw [consider, if_neg hf, if_neg hs] at h
      exact absurd (mem_foldl_of_mem (mem_append_right _ (mem_singleton_self x))) h

end Pigeonpost.Greedy
