import Pigeonpost.Program.Storage.Publication
import Pigeonpost.Verification.Log.Consistency
import Pigeonpost.Verification.Storage.Runs

/-! # The published head is a prefix of the committed log -/

namespace Pigeonpost

open Store

variable {H : Type} {ctx : RegistryContext} {s s' : Store H} {result : Bool}
  {checkpoint : Checkpoint H} {witnessedAt nowMs : ℕ} {note : Bytes}

theorem upsertReceipt_eq_ok {row : WitnessReceiptRow H}
    (h : s.upsertReceipt nowMs row = .ok (s', result)) :
    ∃ rows, s' = { s with witnessReceipts := rows } := by
  simp only [upsertReceipt, ok_iff, Prod.mk.injEq] at h
  obtain ⟨treeSize, -, witnessedAt, -, _, -, rfl, -⟩ := h
  exact ⟨_, rfl⟩

section Steps

variable [Sha256 H]

/-! ## What a step can do -/

/-- The store with another published head: a committed prefix no smaller than the old one. -/
structure Promoted (s : Store H) (published : PublishedState H) : Prop where
  size_ge : s.publishedState.state.size ≤ published.state.size
  size_le : published.state.size ≤ s.registryState.size
  root : s.rootForSize published.state.size = .ok published.state.root

/-- What an operation does to log and published head. -/
inductive PublicationStep (ctx : RegistryContext) (s : Store H) : Store H → Prop
  | log {op : RegistryOp} {s₁ s' : Store H} :
    LogStep ctx op s s₁ → ChallengeStep s₁ s' → PublicationStep ctx s s'
  | receipts (rows : List (WitnessReceiptRow H)) :
    PublicationStep ctx s { s with witnessReceipts := rows }
  | published {published : PublishedState H} :
    Promoted s published → PublicationStep ctx s { s with publishedState := published }

/-! ## The invariant -/

/-- The published head is the head of a prefix of the committed log. -/
structure PublishedPrefix (s : Store H) : Prop where
  size_le : s.publishedState.state.size ≤ s.registryState.size
  root : s.publishedState.state.root = MerkleLog.root ⟨s.leaves.take s.publishedState.state.size⟩

/-- What one step keeps, and that it does not publish less. -/
structure StepKeeps (ctx : RegistryContext) (s s' : Store H) : Prop where
  invariant : LogInvariant ctx s'
  published : PublishedPrefix s'
  grows : s.publishedState.state.size ≤ s'.publishedState.state.size

theorem LogStep.keeps {op : RegistryOp} (h : LogStep ctx op s s') (hinv : LogInvariant ctx s)
    (hp : PublishedPrefix s) : StepKeeps ctx s s' := by
  rcases h with rfl | ⟨entry, -, ha⟩
  · exact ⟨hinv, hp, le_rfl⟩
  · have hle := hp.size_le
    have hi' := ha.invariant
    obtain ⟨bytes, -, he⟩ := ha.entries
    refine ⟨hi', ⟨?_, ?_⟩, by rw [ha.published]⟩
    · rw [ha.published, hi'.size, he, List.length_append, ← hinv.size]
      exact Nat.le_add_right_of_le hle
    · rw [ha.published, ha.take_leaves (hinv.size ▸ hle)]
      exact hp.root

theorem PublicationStep.keeps (h : PublicationStep ctx s s') (hinv : LogInvariant ctx s)
    (hpub : PublishedPrefix s) : StepKeeps ctx s s' := by
  cases h with
  | log hl hc =>
    obtain ⟨hinv₁, hpublished₁, hg⟩ := hl.keeps hinv hpub
    have hi' := hc.logInvariant hinv₁
    rw [hc.sameLog] at hi' ⊢
    exact ⟨hi', ⟨hpublished₁.size_le, hpublished₁.root⟩, hg⟩
  | receipts rows =>
    exact ⟨⟨hinv.rows, hinv.tree, hinv.size, hinv.size_le, hinv.root, hinv.history,
      hinv.bindings, hinv.checkpoints⟩, ⟨hpub.size_le, hpub.root⟩, le_rfl⟩
  | published hp =>
    refine ⟨⟨hinv.rows, hinv.tree, hinv.size, hinv.size_le, hinv.root, hinv.history,
      hinv.bindings, hinv.checkpoints⟩, ⟨hp.size_le, ?_⟩, hp.size_ge⟩
    have hr := hp.root
    have hle := hinv.size ▸ hp.size_le
    rw [rootForSize_eq hinv.tree (by simpa using hinv.size_le) (by simpa using hle)] at hr
    rw [MerkleLog.root_eq_logRoot]
    exact (Except.ok.inj hr).symm

theorem PublicationStep.leaves_isPrefix (h : PublicationStep ctx s s') :
    s.leaves <+: s'.leaves := by
  cases h with
  | log hl hc =>
    rw [hc.sameLog]
    rcases hl with rfl | ⟨entry, -, ha⟩
    · exact List.prefix_rfl
    · obtain ⟨bytes, -, he⟩ := ha.entries
      exact ⟨_, (leaves_concat he).symm⟩
  | receipts | published => exact List.prefix_rfl

variable [DecidableEq H]

theorem saveWitnessReceipt_eq_ok {size : ℕ} {witnessName receiptJson : Bytes}
    {root : H}
    (h : s.saveWitnessReceipt nowMs witnessName size root witnessedAt receiptJson =
      .ok (s', result)) :
    ∃ rows, s' = { s with witnessReceipts := rows } := by
  simp only [saveWitnessReceipt, ok_iff] at h
  obtain ⟨-, -, committedRoot, -, -, h⟩ := h
  split at h
  · exact upsertReceipt_eq_ok h
  simp only [ok_iff] at h
  obtain ⟨redundant, -, h⟩ := h
  cases redundant with
  | true =>
    cases h
    exact ⟨s.witnessReceipts, rfl⟩
  | false => exact upsertReceipt_eq_ok h

section

variable (h : s.promotePublishedState checkpoint note witnessedAt = .ok (s', result))

include h

theorem promotePublishedState_eq_ok :
    s' = s ∧ result = false ∨
      ∃ published, Promoted s published ∧ s' = { s with publishedState := published } ∧
        result = true := by
  simp only [promotePublishedState, ok_iff, not_not, not_or, not_lt] at h
  obtain ⟨-, hs, committedRoot, hr, rfl, ⟨hge, -⟩, h⟩ := h
  split at h
  · cases h
    exact .inl ⟨rfl, rfl⟩
  · simp only [ok_iff, Prod.mk.injEq] at h
    obtain ⟨treeSize, ht, at', -, rfl, rfl⟩ := h
    obtain ⟨rfl, -⟩ := toI64_eq_ok ht
    exact .inr ⟨_, ⟨hge, hs, hr⟩, rfl, rfl⟩

theorem promotePublishedState_step : PublicationStep ctx s s' := by
  rcases promotePublishedState_eq_ok h with ⟨rfl, -⟩ | ⟨published, hp, rfl, -⟩
  · exact .receipts s'.witnessReceipts
  · exact .published hp

end

/-- Only a promotion that reports success changes the store. -/
theorem transact_promotePublishedState
    (h : (transact (promotePublishedState checkpoint note witnessedAt) s).2 ≠ .ok true) :
    (transact (promotePublishedState checkpoint note witnessedAt) s).1 = s := by
  cases hop : promotePublishedState checkpoint note witnessedAt s with
  | error => rw [transact, hop]
  | ok =>
    rw [transact_of_ok hop] at h ⊢
    rcases promotePublishedState_eq_ok hop with ⟨hs, -⟩ | ⟨published, -, -, ht⟩
    · exact hs
    · exact absurd (congrArg Except.ok ht) h

end Steps

variable [Sha256 H] [HashBytes H] [DecidableEq H]
  {policy : Option WitnessPolicy} {json : ReceiptJson H}

/-! ## Whole runs -/

/-- The operations that write the log, the receipts or the published head, those of the
store and those of the registry above it. -/
inductive PublicationOp (H : Type) where
  | append (op : RegistryOp)
  | saveReceipt (nowMs : ℕ) (witnessName : Bytes) (size : ℕ) (root : H) (witnessedAt : ℕ)
    (receiptJson : Bytes)
  | promote (checkpoint : Checkpoint H) (note : Bytes) (witnessedAt : ℕ)
  | submitReceipt (policy : Option WitnessPolicy) (json : ReceiptJson H) (nowMs nowSecs : ℕ)
    (receipt : WitnessReceipt H)
  | promoteHead (policy : Option WitnessPolicy) (json : ReceiptJson H) (nowSecs : ℕ)

/-- The store an operation leaves behind. -/
def PublicationOp.execute (ctx : RegistryContext) (s : Store H) : PublicationOp H → Store H
  | append op => op.execute ctx s
  | saveReceipt nowMs witnessName size root witnessedAt receiptJson =>
    (transact (saveWitnessReceipt nowMs witnessName size root witnessedAt receiptJson) s).1
  | promote checkpoint note witnessedAt =>
    (transact (promotePublishedState checkpoint note witnessedAt) s).1
  | submitReceipt policy json nowMs nowSecs receipt =>
    (transact (submitWitnessReceipt ctx policy json nowMs nowSecs receipt) s).1
  | promoteHead policy json nowSecs =>
    (transact (promoteWitnessedHead ctx policy json nowSecs) s).1

def runPublication (ctx : RegistryContext) (ops : List (PublicationOp H)) (s : Store H) : Store H :=
  ops.foldl (PublicationOp.execute ctx) s

variable {nowSecs : ℕ}

theorem promoteWitnessedHead_eq_ok
    (h : s.promoteWitnessedHead ctx policy json nowSecs = .ok (s', result)) :
    ∃ checkpoint note witnessedAt,
      s.promotePublishedState checkpoint note witnessedAt = .ok (s', result) := by
  simp only [promoteWitnessedHead, ok_iff, Prod.exists] at h
  obtain ⟨policy, -, texts, -, receipts, -, verified, note, -, witnessedAt, -, -, h⟩ := h
  exact ⟨_, _, _, h⟩

/-- The one case analysis of an operation. -/
theorem PublicationOp.execute_step (hinv : LogInvariant ctx s) (op : PublicationOp H) :
    PublicationStep ctx s (op.execute ctx s) := by
  have hr : ∀ {op : Store H → Except RegistryError (Store H × Bool)},
      (∀ result, op s = .ok ((transact op s).1, result) →
        ∃ rows, (transact op s).1 = { s with witnessReceipts := rows }) →
      PublicationStep ctx s (transact op s).1 := by
    intro op hop
    rcases transact_cases op s with hs | ⟨result, h⟩
    · rw [hs]
      exact .receipts s.witnessReceipts
    · obtain ⟨rows, hrows⟩ := hop result h
      rw [hrows]
      exact .receipts rows
  cases op with
  | append op =>
    obtain ⟨s₁, hl, hc⟩ := execute_cases hinv op
    exact .log hl hc
  | saveReceipt =>
    exact hr fun _ h => saveWitnessReceipt_eq_ok h
  | submitReceipt =>
    refine hr fun _ h => ?_
    simp only [submitWitnessReceipt, ok_iff] at h
    obtain ⟨policy, -, witness, -, verified, -, -, h⟩ := h
    exact saveWitnessReceipt_eq_ok h
  | promote checkpoint note witnessedAt =>
    rcases transact_cases (promotePublishedState checkpoint note witnessedAt) s with hs | ⟨_, h⟩
    · rw [PublicationOp.execute, hs]
      exact .receipts s.witnessReceipts
    · exact promotePublishedState_step h
  | promoteHead policy json nowSecs =>
    rcases transact_cases (promoteWitnessedHead ctx policy json nowSecs) s with hs | ⟨_, h⟩
    · rw [PublicationOp.execute, hs]
      exact .receipts s.witnessReceipts
    · obtain ⟨checkpoint, note, witnessedAt, h⟩ := promoteWitnessedHead_eq_ok h
      exact promotePublishedState_step h

theorem runPublication_keeps (ops : List (PublicationOp H)) (hinv : LogInvariant ctx s)
    (hp : PublishedPrefix s) : StepKeeps ctx s (runPublication ctx ops s) := by
  induction ops generalizing s with
  | nil => exact ⟨hinv, hp, le_rfl⟩
  | cons op _ ih =>
    have hs := (op.execute_step hinv).keeps hinv hp
    have hr := ih hs.invariant hs.published
    exact ⟨hr.invariant, hr.published, hs.grows.trans hr.grows⟩

omit [DecidableEq H] in
theorem publishedPrefix_fresh (ctx : RegistryContext) :
    PublishedPrefix (fresh ctx : Store H) where
  size_le := le_rfl
  root := by simp [fresh, MerkleLog.root_eq_logRoot, logRoot]

theorem transact_promoteWitnessedHead
    (h : (transact (promoteWitnessedHead ctx policy json nowSecs) s).2 ≠ .ok true) :
    (transact (promoteWitnessedHead ctx policy json nowSecs) s).1 = s := by
  cases hop : promoteWitnessedHead ctx policy json nowSecs s with
  | error => rw [transact, hop]
  | ok =>
    obtain ⟨checkpoint, note, witnessedAt, hp⟩ := promoteWitnessedHead_eq_ok hop
    rw [transact_of_ok hop, ← congrArg Prod.snd (transact_of_ok hp)] at h
    have hs := transact_promotePublishedState h
    rw [transact_of_ok hp] at hs
    rw [transact_of_ok hop]
    exact hs

/-- However appends, receipts and promotions interleave, the published size only grows
and stays within the committed log, and the published root is the root of the committed
leaves below it. A promotion that fails, or has nothing to do, changes nothing. -/
theorem published_prefix_of_committed (ctx : RegistryContext)
    (before after : List (PublicationOp H)) :
    let s := runPublication ctx before (fresh ctx)
    let s' := runPublication ctx after s
    s.publishedState.state.size ≤ s'.publishedState.state.size ∧
    s'.publishedState.state.size ≤ s'.registryState.size ∧
    s'.registryState.size = s'.leaves.length ∧
    s'.publishedState.state.root = MerkleLog.root ⟨s'.leaves.take s'.publishedState.state.size⟩ ∧
    (∀ checkpoint note witnessedAt,
      (transact (promotePublishedState checkpoint note witnessedAt) s').2 ≠ .ok true →
        (transact (promotePublishedState checkpoint note witnessedAt) s').1 = s') ∧
    ∀ policy json nowSecs,
      (transact (promoteWitnessedHead ctx policy json nowSecs) s').2 ≠ .ok true →
        (transact (promoteWitnessedHead ctx policy json nowSecs) s').1 = s' := by
  intro s s'
  have hs : StepKeeps ctx _ s :=
    runPublication_keeps before (logInvariant_fresh ctx) (publishedPrefix_fresh ctx)
  have hs' : StepKeeps ctx s s' := runPublication_keeps after hs.invariant hs.published
  refine ⟨hs'.grows, hs'.published.size_le, ?_, hs'.published.root, ?_, ?_⟩
  · rw [length_leaves]
    exact hs'.invariant.size
  · intro checkpoint note witnessedAt h
    exact transact_promotePublishedState h
  · intro policy json nowSecs h
    exact transact_promoteWitnessedHead h

/-! ## Growth between published heads -/

theorem runPublication_leaves (ops : List (PublicationOp H)) (hinv : LogInvariant ctx s)
    (hp : PublishedPrefix s) : s.leaves <+: (runPublication ctx ops s).leaves := by
  induction ops generalizing s with
  | nil => exact List.prefix_rfl
  | cons op _ ih =>
    have hs := op.execute_step hinv
    have hk := hs.keeps hinv hp
    exact hs.leaves_isPrefix.trans (ih hk.invariant hk.published)

/-- Between any two published heads the registry serves a proof that clients accept. -/
theorem published_heads_consistent (ctx : RegistryContext) (before after : List (PublicationOp H)) :
    let s := runPublication ctx before (fresh ctx)
    let s' := runPublication ctx after s
    let old := s.publishedState.state
    let new := s'.publishedState.state
    old.size = 0 ∨ ∃ proof, s'.consistencyProof old.size new.size = .ok (some proof) ∧
      verifyConsistency old.size old.root new.size new.root proof = true := by
  intro s s' old new
  have hs : StepKeeps ctx _ s :=
    runPublication_keeps before (logInvariant_fresh ctx) (publishedPrefix_fresh ctx)
  have hs' : StepKeeps ctx s s' := runPublication_keeps after hs.invariant hs.published
  have hg : old.size ≤ new.size := hs'.grows
  have hn : new.size ≤ s'.registryState.size := hs'.published.size_le
  have hl : new.size ≤ s'.leaves.length := by rwa [length_leaves, ← hs'.invariant.size]
  have hsize : (s'.leaves.take new.size).length = new.size := List.length_take_of_le hl
  -- the old root is that of a prefix of what is committed now
  have hroot : old.root = logRoot ((s'.leaves.take new.size).take old.size) := by
    obtain ⟨more, hmore⟩ := runPublication_leaves after hs.invariant hs.published
    have hle : old.size ≤ s.leaves.length := by
      simpa [hs.invariant.size] using hs.published.size_le
    rw [List.take_take, Nat.min_eq_left hg, ← hmore, List.take_append_of_le_length hle]
    exact hs.published.root.trans (MerkleLog.root_eq_logRoot _)
  refine old.size.eq_zero_or_pos.imp_right fun hp => ?_
  have hc := verifyConsistency_consistency hp (hg.trans_eq hsize.symm)
  rw [hsize, ← hroot, ← MerkleLog.root_eq_logRoot, ← hs'.published.root] at hc
  refine ⟨_, ?_, hc⟩
  rw [consistencyProof, if_neg (by omega), consistencyPath_eq hs'.invariant.tree
    (by simpa using hs'.invariant.size_le) 0 _ _ true (by rwa [Nat.zero_add])]
  rfl

end Pigeonpost
