import Pigeonpost.Program.Storage.Challenge
import Pigeonpost.Verification.Storage.Append

/-! # Runs of the registry store

Every writing operation as one step, failed ones included, and what a step can do
to the log. -/

namespace Pigeonpost

open Store List

variable {H : Type} {ctx : RegistryContext} {s s' : Store H}

/-- The writing operations with their arguments and clock readings. -/
inductive RegistryOp where
  | handle (nowMs : ℕ) (request : HandleAppendRequest)
  | compliance (nowMs : ℕ) (publication : ComplianceKeyPublish) (tsMs : UInt64)
  | directory (nowMs : ℕ) (mutation : DirectoryMutation) (tsMs : UInt64)
  | issue (nowMs : ℕ) (provider challengeHash path pubkey : Bytes)
    (pkceChallenge : Option Bytes) (expiresAtMs : ℕ)
  | commit (clock : CommitClock) (challenge : Option IdentityChallengeCommit)
    (request : HandleAppendRequest)

def RegistryOp.request? : RegistryOp → Option HandleAppendRequest
  | handle _ request => some request
  | commit _ _ request => some request
  | _ => none

/-! ## Inversion of the operations -/

theorem transact_of_ok {α : Type} {op : Store H → Except RegistryError (Store H × α)} {result : α}
    (h : op s = .ok (s', result)) : transact op s = (s', .ok result) := by
  rw [transact, h]

/-- A transaction commits what its operation returns, or changes nothing. -/
theorem transact_cases {α : Type} (op : Store H → Except RegistryError (Store H × α))
    (s : Store H) : (transact op s).1 = s ∨ ∃ result, op s = .ok ((transact op s).1, result) := by
  cases h : op s with
  | error => exact .inl (by rw [transact, h])
  | ok pair => exact .inr ⟨pair.2, by rw [transact_of_ok h]⟩

theorem consumeChallenge_eq_ok {now seq : ℕ} {challengeHash : Bytes}
    (h : s.consumeChallenge now seq challengeHash = .ok s') :
    (∃ row ∈ s.identityChallenges, isOpen challengeHash row) ∧ s' = { s with
      identityChallenges := s.identityChallenges.map (markConsumed now seq challengeHash) } := by
  simp only [consumeChallenge, ok_iff] at h
  obtain ⟨now', hn, seq', hs, ho, -, rfl⟩ := h
  obtain ⟨rfl, -⟩ := toI64_eq_ok hn
  obtain ⟨rfl, -⟩ := toI64_eq_ok hs
  simp only [Bool.not_eq_true, Bool.not_eq_false', any_eq_true] at ho
  exact ⟨ho, rfl⟩

theorem insertIdentityChallenge_eq_ok {now expiresAtMs : ℕ}
    {provider challengeHash handle pubkey : Bytes} {pkceChallenge : Option Bytes}
    {result : Unit}
    (h : s.insertIdentityChallenge now provider challengeHash handle pubkey pkceChallenge
      expiresAtMs = .ok (s', result)) :
    ∃ kept, kept.Sublist s.identityChallenges ∧ (∀ row ∈ kept, row.challengeHash ≠ challengeHash) ∧
      s' = { s with identityChallenges := kept ++
        [⟨challengeHash, provider, handle, pubkey, pkceChallenge, expiresAtMs, none, none⟩] } := by
  simp only [insertIdentityChallenge, ok_iff] at h
  obtain ⟨now', hn, -, expiresAt, he, hf, -, h⟩ := h
  obtain ⟨rfl, -⟩ := toI64_eq_ok he
  cases h
  refine ⟨_, filter_sublist, ?_, rfl⟩
  intro row hr heq
  apply hf
  rw [any_eq_true]
  exact ⟨row, hr, by simp [heq]⟩

/-- Challenges are issued and consumed beside the log. -/
inductive ChallengeStep (s : Store H) : Store H → Prop
  | unchanged : ChallengeStep s s
  | issued {kept : List StoredIdentityChallenge} {row : StoredIdentityChallenge} :
    kept.Sublist s.identityChallenges →
    (∀ old ∈ kept, old.challengeHash ≠ row.challengeHash) →
    ChallengeStep s { s with identityChallenges := kept ++ [row] }
  | consumed (now seq : ℕ) (challengeHash : Bytes) :
    ChallengeStep s { s with
      identityChallenges := s.identityChallenges.map (markConsumed now seq challengeHash) }

theorem ChallengeStep.sameLog (h : ChallengeStep s s') :
    s' = { s with identityChallenges := s'.identityChallenges } := by
  cases h <;> rfl

variable [Sha256 H]

theorem ChallengeStep.logInvariant (h : ChallengeStep s s') (hinv : LogInvariant ctx s) :
    LogInvariant ctx s' := by
  rw [h.sameLog]
  exact ⟨hinv.rows, hinv.tree, hinv.size, hinv.size_le, hinv.root, hinv.history,
    hinv.bindings, hinv.checkpoints⟩

/-- The entries an operation may append. -/
inductive Admitted (s : Store H) (op : RegistryOp) : LogEntry → Prop
  | handle (request : HandleAppendRequest) :
    op.request? = some request → s.admitHandle request = .ok none →
    Admitted s op (s.handleEntry request)
  | compliance (publication : ComplianceKeyPublish) (tsMs : UInt64) :
    s.validateComplianceTransition
      (.complianceKey (UInt64.ofNat s.registryState.size) publication tsMs) = .ok none →
    Admitted s op (.complianceKey (UInt64.ofNat s.registryState.size) publication tsMs)
  | directory (mutation : DirectoryMutation) (tsMs : UInt64) :
    Admitted s op (s.directoryEntry mutation tsMs)

/-- The log as it was, or with one admitted entry more. -/
def LogStep (ctx : RegistryContext) (op : RegistryOp) (s s' : Store H) : Prop :=
  s' = s ∨ ∃ entry, Admitted s op entry ∧ Appended ctx entry s s'

theorem LogStep.logInvariant {op : RegistryOp} (h : LogStep ctx op s s')
    (hinv : LogInvariant ctx s) : LogInvariant ctx s' := by
  rcases h with rfl | ⟨entry, -, ha⟩
  · exact hinv
  · exact ha.invariant

variable [HashBytes H] {request : HandleAppendRequest} {result : HandleAppend} {nowMs : ℕ}
  {tsMs : UInt64}

section

variable (hin : LogInvariant ctx s)

include hin

theorem appendHandleInTransaction_eq_ok
    (h : s.appendHandleInTransaction ctx nowMs request = .ok (s', result)) :
    s.admitHandle request = .ok (some result.seq) ∧ s' = s ∧ result.appended = false ∨
    s.admitHandle request = .ok none ∧ Appended ctx (s.handleEntry request) s s' ∧
      result = ⟨s.entries.length, true⟩ := by
  simp only [appendHandleInTransaction, ok_iff] at h
  obtain ⟨admitted, ha, h⟩ := h
  cases admitted with
  | some =>
    cases h
    exact .inl ⟨ha, rfl, rfl⟩
  | none =>
    simp only [ok_iff] at h
    obtain ⟨_, -, s₁, happ, h⟩ := h
    cases h
    have hs := appendEntryInTransaction_spec hin happ
    exact .inr ⟨ha, hs, by rw [hs.seq]⟩

theorem appendComplianceKey_eq_ok {publication : ComplianceKeyPublish} {result : ComplianceAppend}
    (op : RegistryOp) (h : s.appendComplianceKey ctx nowMs publication tsMs = .ok (s', result)) :
    LogStep ctx op s s' := by
  simp only [appendComplianceKey, ok_iff] at h
  obtain ⟨_, -, admitted, ha, h⟩ := h
  cases admitted with
  | some => exact .inl (Prod.mk.inj (pure_eq_ok.mp h)).1.symm
  | none =>
    simp only [ok_iff] at h
    obtain ⟨s₁, happ, h⟩ := h
    cases h
    exact .inr ⟨_, .compliance _ _ ha, appendEntryInTransaction_spec hin happ⟩

theorem appendHandleInTransaction_step {op : RegistryOp} (hop : op.request? = some request)
    (h : s.appendHandleInTransaction ctx nowMs request = .ok (s', result)) :
    LogStep ctx op s s' := by
  rcases appendHandleInTransaction_eq_ok hin h with ⟨-, hs, -⟩ | ⟨ha, happ, -⟩
  · exact .inl hs
  · exact .inr ⟨_, .handle request hop ha, happ⟩

variable [DecidableEq H] {mutation : DirectoryMutation}

theorem appendDirectoryMutation_cases {result : DirectoryAppend}
    (h : s.appendDirectoryMutation ctx nowMs mutation tsMs = .ok (s', result)) :
    s' = s ∨ ∃ endpoint loftPubkey sequence,
      (s.directoryEntry mutation tsMs).authenticatedDirectoryMutation =
        some (endpoint, loftPubkey, sequence) ∧
      s.admitDirectory ctx (s.directoryEntry mutation tsMs) endpoint loftPubkey sequence.toNat =
        .ok none ∧
      Appended ctx (s.directoryEntry mutation tsMs) s s' := by
  simp only [appendDirectoryMutation, ok_iff] at h
  obtain ⟨_, -, h⟩ := h
  split at h
  · cases h
  rename_i hm
  simp only [ok_iff] at h
  obtain ⟨admitted, hadm, h⟩ := h
  cases admitted with
  | some => exact .inl (Prod.mk.inj (pure_eq_ok.mp h)).1.symm
  | none =>
    simp only [ok_iff] at h
    obtain ⟨s₁, ha, h⟩ := h
    cases h
    exact .inr ⟨_, _, _, hm, hadm, appendEntryInTransaction_spec hin ha⟩

end

/-! ## One step and whole runs -/

variable [DecidableEq H]

/-- The store an operation leaves behind. -/
def RegistryOp.execute (ctx : RegistryContext) (s : Store H) : RegistryOp → Store H
  | handle nowMs request => (transact (appendHandleInTransaction ctx nowMs request) s).1
  | compliance nowMs publication tsMs =>
    (transact (appendComplianceKey ctx nowMs publication tsMs) s).1
  | directory nowMs mutation tsMs =>
    (transact (appendDirectoryMutation ctx nowMs mutation tsMs) s).1
  | issue nowMs provider challengeHash path pubkey pkceChallenge expiresAtMs =>
    (transact (insertIdentityChallenge nowMs provider challengeHash path pubkey
      pkceChallenge expiresAtMs) s).1
  | commit clock challenge request =>
    (transact (commitHandleBinding ctx clock challenge request) s).1

def runOps (ctx : RegistryContext) (ops : List RegistryOp) (s : Store H) : Store H :=
  ops.foldl (RegistryOp.execute ctx) s

def Reachable (ctx : RegistryContext) (s : Store H) : Prop :=
  ∃ ops, s = runOps ctx ops (Store.fresh ctx)

/-- A commit without a recovery appends or finds the binding, and consumes the
challenge. -/
theorem commitHandleBinding_eq_ok {clock : CommitClock} {challenge : IdentityChallengeCommit}
    (h : s.commitHandleBinding ctx clock (some challenge) request = .ok (s', result)) :
    s.admitChallenge ctx clock.expiryCheck challenge request = .ok (some result.seq) ∧ s' = s ∧
      result.appended = false ∨
    s.admitChallenge ctx clock.expiryCheck challenge request = .ok none ∧ ∃ s₁,
      s.appendHandleInTransaction ctx clock.checkpoint request = .ok (s₁, result) ∧
      s₁.consumeChallenge clock.consumed result.seq challenge.challengeHash = .ok s' := by
  simp only [commitHandleBinding, ok_iff] at h
  obtain ⟨admitted, ha, h⟩ := h
  cases admitted with
  | some =>
    cases h
    exact .inl ⟨ha, rfl, rfl⟩
  | none =>
    simp only [ok_iff] at h
    obtain ⟨⟨s₁, appended⟩, happ, s₂, hc, h⟩ := h
    cases h
    exact .inr ⟨ha, s₁, happ, hc⟩

/-- The one case analysis of an operation. -/
theorem execute_cases (hinv : LogInvariant ctx s) (op : RegistryOp) :
    ∃ s₁, LogStep ctx op s s₁ ∧ ChallengeStep s₁ (op.execute ctx s) := by
  cases op with
  | handle nowMs request =>
    refine ⟨_, ?_, .unchanged⟩
    rcases transact_cases (appendHandleInTransaction ctx nowMs request) s with hsame | ⟨_, h⟩
    · exact .inl hsame
    · exact appendHandleInTransaction_step hinv rfl h
  | compliance nowMs publication tsMs =>
    refine ⟨_, ?_, .unchanged⟩
    rcases transact_cases (appendComplianceKey ctx nowMs publication tsMs) s with hsame | ⟨_, h⟩
    · exact .inl hsame
    · exact appendComplianceKey_eq_ok hinv _ h
  | directory nowMs mutation tsMs =>
    refine ⟨_, ?_, .unchanged⟩
    rcases transact_cases (appendDirectoryMutation ctx nowMs mutation tsMs) s with hsame | ⟨_, h⟩
    · exact .inl hsame
    · rcases appendDirectoryMutation_cases hinv h with hs | ⟨_, _, _, -, -, ha⟩
      · exact .inl hs
      · exact .inr ⟨_, .directory _ _, ha⟩
  | issue nowMs provider challengeHash path pubkey pkceChallenge expiresAtMs =>
    refine ⟨s, .inl rfl, ?_⟩
    rcases transact_cases (insertIdentityChallenge nowMs provider challengeHash path pubkey
      pkceChallenge expiresAtMs) s with hsame | ⟨_, h⟩
    · rw [RegistryOp.execute, hsame]
      exact .unchanged
    · obtain ⟨kept, hk, hf, hs⟩ := insertIdentityChallenge_eq_ok h
      rw [RegistryOp.execute, hs]
      exact .issued hk hf
  | commit clock challenge request =>
    rcases transact_cases (commitHandleBinding ctx clock challenge request) s with hsame | ⟨_, h⟩
    · exact ⟨_, .inl hsame, .unchanged⟩
    cases challenge with
    | none => exact ⟨_, appendHandleInTransaction_step hinv rfl h, .unchanged⟩
    | some =>
      rcases commitHandleBinding_eq_ok h with ⟨-, hsame, -⟩ | ⟨-, s₁, ha, hc⟩
      · exact ⟨_, .inl hsame, .unchanged⟩
      · obtain ⟨-, hs⟩ := consumeChallenge_eq_ok hc
        rw [RegistryOp.execute, hs]
        exact ⟨s₁, appendHandleInTransaction_step hinv rfl ha, .consumed _ _ _⟩

theorem runOps_induction {P : Store H → Prop} (ops : List RegistryOp)
    (ha : ∀ op ∈ ops, ∀ s s' entry, LogInvariant ctx s → Admitted s op entry →
      Appended ctx entry s s' → P s → P s')
    (hc : ∀ s s', ChallengeStep s s' → P s → P s')
    (hinv : LogInvariant ctx s) (hP : P s) :
    LogInvariant ctx (runOps ctx ops s) ∧ P (runOps ctx ops s) := by
  induction ops generalizing s with
  | nil => exact ⟨hinv, hP⟩
  | cons op _ ih =>
    obtain ⟨s₁, hl, hs⟩ := execute_cases hinv op
    refine ih (fun op hop => ha op (mem_cons_of_mem _ hop))
      (hs.logInvariant (hl.logInvariant hinv)) (hc _ _ hs ?_)
    rcases hl with rfl | ⟨entry, hacc, hspec⟩
    · exact hP
    · exact ha op mem_cons_self _ _ entry hinv hacc hspec hP

theorem Reachable.runOps (h : Reachable ctx s) (ops : List RegistryOp) :
    Reachable ctx (Pigeonpost.runOps ctx ops s) := by
  obtain ⟨ops', rfl⟩ := h
  exact ⟨ops' ++ ops, by simp [Pigeonpost.runOps]⟩

end Pigeonpost
