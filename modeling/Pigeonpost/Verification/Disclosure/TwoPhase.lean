import Pigeonpost.Verification.Disclosure.Replay

/-! # Intents and completions

Every list of leaves that a ledger takes in is two-phase: a request is announced at most
once, completed at most once, and completed after it was announced. -/

namespace Pigeonpost

open LedgerIndex DisclosureLeaf List

/-- Two leaves that announce the same request. -/
def DisclosureLeaf.sameIntent : DisclosureLeaf → DisclosureLeaf → Prop
  | .intent first, .intent second => first.requestId = second.requestId
  | _, _ => False

def DisclosureLeaf.sameCompletion : DisclosureLeaf → DisclosureLeaf → Prop
  | .completion first, .completion second => first.requestId = second.requestId
  | _, _ => False

/-- Intents come first, and at most one of each kind. -/
structure TwoPhase (leaves : List DisclosureLeaf) : Prop where
  one_intent : leaves.Pairwise fun first second => ¬first.sameIntent second
  one_completion : leaves.Pairwise fun first second => ¬first.sameCompletion second
  announced : ∀ before completion after, leaves = before ++ .completion completion :: after →
    ∃ intent, .intent intent ∈ before ∧ intent.requestId = completion.requestId ∧
      intent.timestampMs ≤ completion.timestampMs

def decodeLeaves (leaves : List Bytes) : List DisclosureLeaf :=
  leaves.filterMap fun encoded => (DisclosureLeaf.decode encoded).toOption

variable {leaf : DisclosureLeaf}

section Index

variable {H : Type}

/-- What the indexes know of the leaves. -/
structure LedgerIndex.Sequences (index : LedgerIndex H) (leaves : List DisclosureLeaf) : Prop where
  requestIds : ∀ id, id ∈ index.requestIds ↔
    ∃ intent, .intent intent ∈ leaves ∧ intent.requestId = id
  incomplete : ∀ id pending, index.incomplete.lookup id = some pending →
    (∃ intent, .intent intent ∈ leaves ∧ intent.requestId = id ∧
      intent.timestampMs = pending.timestampMs) ∧
    ∀ completion, .completion completion ∈ leaves → completion.requestId ≠ id

variable {index : LedgerIndex H} {leaves : List DisclosureLeaf}

theorem LedgerIndex.fresh_of_validateLeaf {intent : DisclosureIntent}
    (h : index.validateLeaf (.intent intent) = .ok ()) : intent.requestId ∉ index.requestIds := by
  intro hm
  rw [validateLeaf, validateLeafSequence, if_pos hm] at h
  cases h

theorem LedgerIndex.pending_of_validateLeaf {completion : DisclosureCompletion}
    (h : index.validateLeaf (.completion completion) = .ok ()) :
    ∃ pending, index.incomplete.lookup completion.requestId = some pending ∧
      pending.timestampMs ≤ completion.timestampMs := by
  simp only [validateLeaf, validateLeafSequence] at h
  split at h
  · cases h
  · rename_i pending hl
    refine ⟨pending, hl, UInt64.not_lt.mp fun hlt => ?_⟩
    rw [if_pos hlt] at h
    cases h

/-- A leaf that passes the check of the sequence keeps the list two-phase. -/
theorem TwoPhase.snoc (h : TwoPhase leaves) (hindex : index.Sequences leaves)
    (hv : index.validateLeaf leaf = .ok ()) : TwoPhase (leaves ++ [leaf]) := by
  refine ⟨pairwise_append_singleton.mpr ⟨h.one_intent, fun first hf hsame => ?_⟩,
    pairwise_append_singleton.mpr ⟨h.one_completion, fun first hf hsame => ?_⟩, ?_⟩
  · cases first <;> cases leaf <;> try exact hsame
    exact fresh_of_validateLeaf hv ((hindex.requestIds _).mpr ⟨_, hf, hsame⟩)
  · cases first <;> cases leaf <;> try exact hsame
    obtain ⟨pending, hl, -⟩ := pending_of_validateLeaf hv
    exact (hindex.incomplete _ _ hl).2 _ hf hsame
  · intro before completion after heq
    rcases eq_nil_or_concat after with rfl | ⟨rest, last, rfl⟩
    · obtain ⟨rfl, hlast⟩ := append_inj' heq rfl
      obtain rfl := singleton_injective hlast
      obtain ⟨pending, hl, hlate⟩ := pending_of_validateLeaf hv
      obtain ⟨⟨intent, hint, hid, ht⟩, -⟩ := hindex.incomplete _ _ hl
      exact ⟨intent, hint, hid, ht ▸ hlate⟩
    · rw [concat_eq_append, ← cons_append, ← append_assoc] at heq
      exact h.announced before completion rest (append_inj' heq rfl).1

theorem LedgerIndex.Sequences.snoc (h : index.Sequences leaves) (hp : TwoPhase leaves)
    {next : LedgerIndex H}
    (hv : index.validateLeaf leaf = .ok ()) {sequence : ℕ}
    (hids : next.requestIds = (index.recordLeafState leaf sequence).requestIds)
    (hinc : next.incomplete = (index.recordLeafState leaf sequence).incomplete) :
    next.Sequences (leaves ++ [leaf]) := by
  cases leaf with
  | intent intent =>
    have hf := fresh_of_validateLeaf hv
    simp only [recordLeafState] at hids hinc
    refine ⟨?_, ?_⟩
    · intro id
      rw [hids, Finset.mem_insert, h.requestIds]
      simp only [mem_append, mem_singleton]
      constructor
      · rintro (rfl | ⟨other, hm, hid⟩)
        · exact ⟨intent, .inr rfl, rfl⟩
        · exact ⟨other, .inl hm, hid⟩
      · rintro ⟨other, hm | hm, hid⟩
        · exact .inr ⟨other, hm, hid⟩
        · obtain rfl := DisclosureLeaf.intent.inj hm
          exact .inl hid.symm
    · intro id pending hl
      rw [hinc] at hl
      by_cases heq : id = intent.requestId
      · subst heq
        rw [AList.lookup_insert] at hl
        cases hl
        refine ⟨⟨intent, mem_append_right _ mem_cons_self, rfl, rfl⟩, ?_⟩
        intro completion hm hid
        rcases mem_append.mp hm with hm | hm
        · obtain ⟨before, after, rfl⟩ := append_of_mem hm
          obtain ⟨other, ho, hother, -⟩ := hp.announced before completion after rfl
          exact hf ((h.requestIds _).mpr ⟨other, mem_append_left _ ho, hother.trans hid⟩)
        · cases mem_singleton.mp hm
      · rw [AList.lookup_insert_ne heq] at hl
        obtain ⟨⟨other, ho, hid, ht⟩, hn⟩ := h.incomplete id pending hl
        refine ⟨⟨other, mem_append_left _ ho, hid, ht⟩, ?_⟩
        intro completion hm
        rcases mem_append.mp hm with hm | hm
        · exact hn completion hm
        · cases mem_singleton.mp hm
  | completion completion =>
    simp only [recordLeafState] at hids hinc
    refine ⟨?_, ?_⟩
    · intro id
      rw [hids, h.requestIds]
      simp
    · intro id pending hl
      rw [hinc] at hl
      by_cases heq : id = completion.requestId
      · subst heq
        rw [AList.lookup_erase] at hl
        cases hl
      · rw [AList.lookup_erase_ne heq] at hl
        obtain ⟨⟨other, ho, hid, ht⟩, hn⟩ := h.incomplete id pending hl
        refine ⟨⟨other, mem_append_left _ ho, hid, ht⟩, ?_⟩
        intro closing hm
        rcases mem_append.mp hm with hm | hm
        · exact hn closing hm
        · obtain rfl := DisclosureLeaf.completion.inj (mem_singleton.mp hm)
          exact Ne.symm heq

end Index

section Replay

variable {H : Type} [Sha256 H] {leaves : List Bytes} {index : LedgerIndex H}

theorem LedgerIndex.absorbHash_sequence {next : LedgerIndex H} {hash : H}
    (h : index.absorbHash hash = .ok next) :
    next.requestIds = index.requestIds ∧ next.incomplete = index.incomplete := by
  simp only [absorbHash, ok_iff, Prod.exists] at h
  obtain ⟨frontier, _, -, root, -, tailFrontier, _, -, h⟩ := h
  by_cases hf : (index.proofTailHashes ++ [hash]).length = proofBlockLeaves
  · rw [if_pos hf] at h
    simp only [ok_iff] at h
    obtain ⟨_, -, rfl⟩ := h
    exact ⟨rfl, rfl⟩
  · rw [if_neg hf] at h
    cases h
    exact ⟨rfl, rfl⟩

theorem Replays.twoPhase (h : Replays leaves index) :
    TwoPhase (decodeLeaves leaves) ∧ index.Sequences (decodeLeaves leaves) := by
  induction h with
  | nil =>
    refine ⟨⟨.nil, .nil, ?_⟩, ⟨?_, ?_⟩⟩
    · intro before completion after heq
      simp [decodeLeaves] at heq
    · simp [new, decodeLeaves]
    · intro id pending hl
      simp [new] at hl
  | @snoc leaves index next encoded leaf _ _ _ _ decoded valid absorbed ih =>
    obtain ⟨hp, hs⟩ := ih
    rw [show decodeLeaves (leaves ++ [encoded]) = decodeLeaves leaves ++ [leaf] by
      simp [decoded, Except.toOption, decodeLeaves]]
    refine ⟨hp.snoc hs valid, ?_⟩
    simp only [absorbLeaf, ok_iff] at absorbed
    obtain ⟨hashed, ha, rfl⟩ := absorbed
    obtain ⟨hids, hinc⟩ := absorbHash_sequence ha
    have hr : (hashed.recordLeafState leaf index.leafCount).requestIds =
        (index.recordLeafState leaf index.leafCount).requestIds := by
      cases leaf <;> simp [recordLeafState, hids]
    have hri : (hashed.recordLeafState leaf index.leafCount).incomplete =
        (index.recordLeafState leaf index.leafCount).incomplete := by
      cases leaf <;> simp [recordLeafState, hinc]
    exact hs.snoc hp valid hr hri

end Replay

end Pigeonpost
