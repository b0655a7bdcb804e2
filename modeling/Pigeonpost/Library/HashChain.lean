import Mathlib.Data.Set.Function

/-! # Hash chains

A chain of items, each of which carries the hash of itself and of the hash before it.
Where the hash has no collision among the inputs of two chains, their last hash and
their length determine both. -/

namespace Pigeonpost.HashChain

open List

variable {α η χ : Type*} (hash : χ → η) (input : η → α → χ) (carried : α → η)

def Chained : η → List α → η → Prop
  | start, [], last => start = last
  | start, item :: rest, last =>
    carried item = hash (input start item) ∧ Chained (carried item) rest last

/-- What is hashed along a chain. -/
def inputs : η → List α → List χ
  | _, [] => []
  | start, item :: rest => input start item :: inputs (carried item) rest

variable {hash input carried}

theorem Chained.unique {start start' last : η} {items items' : List α}
    (hinput : ∀ p q a b, input p a = input q b → carried a = carried b → p = q ∧ a = b)
    (hf : Set.InjOn hash
      {x | x ∈ inputs input carried start items ∨ x ∈ inputs input carried start' items'})
    (h : Chained hash input carried start items last)
    (h' : Chained hash input carried start' items' last)
    (hl : items.length = items'.length) : start = start' ∧ items = items' := by
  induction items generalizing start start' items' with
  | nil =>
    cases items' with
    | nil => exact ⟨Eq.trans h (Eq.symm h'), rfl⟩
    | cons => simp at hl
  | cons item _ ih =>
    cases items' with
    | nil => simp at hl
    | cons item' =>
      obtain ⟨hitem, hr⟩ := h
      obtain ⟨hi', hr'⟩ := h'
      -- the tails are chains to the same end, so they start at the same hash
      have ht := ih (hf.mono fun x hx => hx.imp (mem_cons_of_mem _)
        (mem_cons_of_mem _)) hr hr' (by simpa using hl)
      have hsame : input start item = input start' item' := by
        apply hf (.inl mem_cons_self) (.inr mem_cons_self)
        rw [← hitem, ← hi', ht.1]
      obtain ⟨hs, rfl⟩ := hinput _ _ _ _ hsame ht.1
      exact ⟨hs, by rw [ht.2]⟩

end Pigeonpost.HashChain
