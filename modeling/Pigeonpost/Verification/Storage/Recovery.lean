import Pigeonpost.Verification.Entry.Leaf
import Pigeonpost.Verification.Shared.SymbolicRegistry
import Pigeonpost.Verification.Storage.Ownership

/-! # Recovery of a consumed identity challenge

A retry finds the sequence its challenge was consumed with. It is accepted exactly
when the entry there has the kind the request asks for. -/

namespace Pigeonpost

open Store List

variable {H : Type} {ctx : RegistryContext} {s s' : Store H} {row : EntryRow H} {seq : ℕ}
  {challenge : IdentityChallengeCommit} {request : HandleAppendRequest}

/-! ## Challenge rows over a run -/

/-- The table's primary key. -/
def ChallengesUnique (s : Store H) : Prop :=
  (s.identityChallenges.map (·.challengeHash)).Nodup

theorem ChallengeStep.unique (h : ChallengeStep s s') (hu : ChallengesUnique s) :
    ChallengesUnique s' := by
  unfold ChallengesUnique at hu ⊢
  cases h with
  | unchanged => exact hu
  | issued hk hf =>
    rw [map_append]
    refine ((hk.map _).nodup hu).append (nodup_singleton _) ?_
    simpa [disjoint_singleton] using hf
  | consumed now seq challengeHash =>
    have hh : (fun row : StoredIdentityChallenge => row.challengeHash) ∘
        markConsumed now seq challengeHash = (·.challengeHash) := by
      funext row
      simp only [Function.comp_apply, markConsumed]
      split <;> rfl
    rw [map_map, hh]
    exact hu

theorem readIdentityChallenge_eq (hu : ChallengesUnique s) {row : StoredIdentityChallenge}
    {challengeHash : Bytes} (hr : row ∈ s.identityChallenges)
    (hh : row.challengeHash = challengeHash) : s.readIdentityChallenge challengeHash = some row :=
  (Table.find_eq_some_iff hu).mpr ⟨hr, hh⟩

section Entries

variable [Sha256 H] [DecidableEq H] {entry : LogEntry}

/-! ## Reading stored entries -/

theorem parseEntryRow_entryRow {bytes : Bytes} (hl : entry.leafBytes ctx.prim = .ok bytes) :
    parseEntryRow ctx (entryRow entry (leafHash bytes) : EntryRow H) = .ok entry := by
  have hv := LogEntry.validate_of_leafBytes hl
  simp [parseEntryRow, entryRow, hv, hl, pure, Except.pure]

section

variable (hin : LogInvariant ctx s)

include hin

omit [DecidableEq H] in
/-- Rows are found by their position. -/
theorem find_entries_eq (hr : s.entries[seq]? = some row) :
    (s.entries.find? fun row => row.seq = seq) = some row := by
  have hs : ∀ (i : ℕ) (row : EntryRow H), s.entries[i]? = some row → row.seq = i := by
    intro i row hr
    obtain ⟨entry, bytes, rfl, rfl, -⟩ := hin.rows i row hr
    rfl
  obtain ⟨hlt, hg⟩ := List.getElem?_eq_some_iff.mp hr
  rw [List.find?_eq_some_iff_getElem]
  refine ⟨by simpa using hs seq row hr, seq, hlt, hg, ?_⟩
  intro j hj
  have hjseq := hs j s.entries[j] (getElem?_eq_getElem _)
  simp [hjseq, hj.ne]

theorem entryAt_eq (hr : s.entries[seq]? = some row) :
    s.entryAt ctx seq = .ok (some row.entry) := by
  have hlt := (List.getElem?_eq_some_iff.mp hr).1
  have hf := find_entries_eq hin hr
  obtain ⟨entry, bytes, rfl, -, hl⟩ := hin.rows seq row hr
  rw [entryAt, toI64_of_le (hlt.le.trans hin.size_le)]
  simp only [bind, Except.bind, hf, parseEntryRow_entryRow hl]
  rfl

theorem exists_row_of_entryAt (h : s.entryAt ctx seq = .ok (some entry)) :
    ∃ row, s.entries[seq]? = some row ∧ row.entry = entry := by
  simp only [entryAt, ok_iff] at h
  obtain ⟨seq', hs, h⟩ := h
  obtain ⟨rfl, -⟩ := toI64_eq_ok hs
  split at h
  · cases h
  rename_i row hfind
  simp only [ok_iff, Option.some.injEq] at h
  obtain ⟨parsed, hp, rfl⟩ := h
  obtain ⟨i, hi⟩ := mem_iff_getElem?.mp (mem_of_find?_eq_some hfind)
  obtain ⟨entry, bytes, rfl, rfl, hl⟩ := hin.rows i row hi
  obtain rfl := Except.ok.inj ((parseEntryRow_entryRow hl).symm.trans hp)
  have hm := find?_some hfind
  have hf : entry.seq.toNat = seq' := of_decide_eq_true hm
  exact ⟨_, hf ▸ hi, rfl⟩

theorem exists_entry_of_recovered (h : s.validateRecoveredHandleBinding ctx seq request = .ok ()) :
    ∃ row, s.entries[seq]? = some row ∧
      row.entry.handleBinding = some ⟨request.handle, request.pubkey, request.subject⟩ ∧
      expectedKind row.entry request.mode = true := by
  simp only [validateRecoveredHandleBinding, ok_iff] at h
  obtain ⟨found, hf, h⟩ := h
  cases found with
  | none => simp at h
  | some =>
    obtain ⟨row, hr, rfl⟩ := exists_row_of_entryAt hin hf
    refine ⟨row, hr, ?_⟩
    by_contra hb
    rw [not_and_or] at hb
    simp only [] at h
    rw [if_pos (by simpa [or_comm] using hb)] at h
    simp at h

theorem validateRecoveredHandleBinding_eq_ok_iff (hr : s.entries[seq]? = some row)
    (hb : row.entry.handleBinding = some ⟨request.handle, request.pubkey, request.subject⟩) :
    s.validateRecoveredHandleBinding ctx seq request = .ok () ↔
      expectedKind row.entry request.mode = true := by
  rw [validateRecoveredHandleBinding, entryAt_eq hin hr]
  cases hk : expectedKind row.entry request.mode <;>
    simp [bind, Except.bind, hk, hb, pure, Except.pure, throw, throwThe, MonadExceptOf.throw]

end

/-! ## The recorded result -/

/-- The consumed challenge names the binding it was used for. -/
structure Recorded (challenge : IdentityChallengeCommit) (request : HandleAppendRequest)
    (seq : ℕ) (row : StoredIdentityChallenge) : Prop where
  key : decodeHex request.pubkey 32 = some challenge.pubkey
  hash : row.challengeHash = challenge.challengeHash
  fields : validateIdentityChallengeFields row challenge.provider request.handle
    challenge.pubkey challenge.expectedPkceChallenge = .ok ()
  consumed : row.consumedAt.isSome = true
  seq : row.bindingSeq = some seq

theorem admitChallenge_eq_ok {now : ℕ} {admitted : Option ℕ}
    (h : s.admitChallenge ctx now challenge request = .ok admitted) :
    decodeHex request.pubkey 32 = some challenge.pubkey ∧ ∃ row,
      s.readIdentityChallenge challenge.challengeHash = some row ∧
      validateIdentityChallengeFields row challenge.provider request.handle challenge.pubkey
        challenge.expectedPkceChallenge = .ok () ∧
      (row.consumedAt.isSome = true ∧ (∃ seq, row.bindingSeq = some seq ∧
          s.validateRecoveredHandleBinding ctx seq request = .ok () ∧ admitted = some seq) ∨
        ¬row.consumedAt.isSome = true ∧ admitted = none) := by
  simp only [admitChallenge, ok_iff, not_not] at h
  obtain ⟨hk, h⟩ := h
  refine ⟨hk, ?_⟩
  split at h
  · cases h
  rename_i row hr
  simp only [ok_iff] at h
  obtain ⟨⟨⟩, hf, h⟩ := h
  refine ⟨row, hr, hf, ?_⟩
  by_cases hc : row.consumedAt.isSome = true
  · rw [if_pos hc] at h
    split at h
    · cases h
    · rename_i seq hs
      simp only [ok_iff] at h
      obtain ⟨⟨⟩, hv, ha⟩ := h
      exact .inl ⟨hc, seq, hs, hv, ha.symm⟩
  · rw [if_neg hc] at h
    split at h
    · simp at h
    · exact .inr ⟨hc, (pure_eq_ok.mp h).symm⟩

/-- With the consumed row in place the challenge is admitted as far as the recovery
check goes, and only with the recorded sequence. -/
theorem admitChallenge_of_recorded {now : ℕ} {row : StoredIdentityChallenge}
    (hu : ChallengesUnique s) (hrow : row ∈ s.identityChallenges)
    (h : Recorded challenge request seq row) :
    s.admitChallenge ctx now challenge request =
      (s.validateRecoveredHandleBinding ctx seq request).map fun _ => some seq := by
  have hr := readIdentityChallenge_eq hu hrow h.hash
  simp only [admitChallenge, h.key, hr, h.fields, h.consumed, h.seq, bind, Except.bind,
    ne_eq, not_true_eq_false, if_false, if_true]
  cases s.validateRecoveredHandleBinding ctx seq request <;> rfl

theorem exists_recorded_of_consume {now clock : ℕ} (hu : ChallengesUnique s)
    (ha : s.admitChallenge ctx now challenge request = .ok none) {s₁ : Store H}
    (hs : s₁.identityChallenges = s.identityChallenges)
    (hc : s₁.consumeChallenge clock seq challenge.challengeHash = .ok s') :
    ∃ row ∈ s'.identityChallenges, Recorded challenge request seq row := by
  obtain ⟨hk, stored, hr, hf, -⟩ := admitChallenge_eq_ok ha
  obtain ⟨⟨open', hm, ho⟩, rfl⟩ := consumeChallenge_eq_ok hc
  rw [hs] at hm
  have hh : open'.challengeHash = challenge.challengeHash := by
    simp only [isOpen, decide_eq_true_eq] at ho
    exact ho.1
  obtain rfl : open' = stored := Option.some.inj ((readIdentityChallenge_eq hu hm hh).symm.trans hr)
  refine ⟨markConsumed clock seq challenge.challengeHash open', ?_, ?_⟩
  · rw [hs]
    exact mem_map_of_mem hm
  · rw [markConsumed, if_pos ho]
    exact ⟨hk, hh, hf, rfl, rfl⟩

end Entries

variable [Sha256 H] [HashBytes H] [DecidableEq H] {result : HandleAppend}

/-! ## Retries -/

theorem Reachable.challengesUnique (hr : Reachable ctx s) : ChallengesUnique s := by
  obtain ⟨ops, rfl⟩ := hr
  refine (runOps_induction ops ?_ ?_ (logInvariant_fresh ctx) ?_).2
  · intro op _ s s' entry _ _ ha hu
    rw [ChallengesUnique, ha.challenges]
    exact hu
  · intro s s' hs hu
    exact hs.unique hu
  · exact nodup_nil

theorem runOps_getElem? (ops : List RegistryOp) (hinv : LogInvariant ctx s) {i : ℕ}
    (hr : s.entries[i]? = some row) : (runOps ctx ops s).entries[i]? = some row := by
  refine (runOps_induction (P := fun s => s.entries[i]? = some row) ops ?_ ?_ hinv hr).2
  · intro op _ s s' entry _ _ ha hr
    obtain ⟨bytes, -, he⟩ := ha.entries
    rw [he, List.getElem?_append_left (List.getElem?_eq_some_iff.mp hr).1]
    exact hr
  · intro s s' hs hr
    rw [hs.sameLog]
    exact hr

theorem exists_entry_of_commit {clock : CommitClock} (hr : Reachable ctx s)
    (h : s.commitHandleBinding ctx clock (some challenge) request = .ok (s', result)) :
    (∃ row ∈ s'.identityChallenges, Recorded challenge request result.seq row) ∧
    ∃ row, s'.entries[result.seq]? = some row ∧
      row.entry.handleBinding = some ⟨request.handle, request.pubkey, request.subject⟩ ∧
      (expectedKind row.entry request.mode = true ↔
        result.appended = true ∨ ∃ old, s.entries[result.seq]? = some old ∧
          expectedKind old.entry request.mode = true) := by
  obtain ⟨hinv, hbind, -⟩ := hr.ownership
  have hu := hr.challengesUnique
  rcases commitHandleBinding_eq_ok h with ⟨ha, rfl, hf⟩ | ⟨ha, s₁, happ, hc⟩
  · obtain ⟨hkey, stored, hread, hfie, hcase⟩ := admitChallenge_eq_ok ha
    obtain ⟨hm, hh⟩ := (Table.find_eq_some_iff hu).mp hread
    rcases hcase with ⟨hcon, seq, hseq, hv, hres⟩ | ⟨-, hn⟩
    · cases hres
      obtain ⟨row, hrow, hb, hk⟩ := exists_entry_of_recovered hinv hv
      refine ⟨⟨stored, hm, ⟨hkey, hh, hfie, hcon, hseq⟩⟩, row, hrow, hb, ?_⟩
      simp [hrow, hk]
    · simp at hn
  · have hcha : s₁.identityChallenges = s.identityChallenges := by
      rcases appendHandleInTransaction_eq_ok hinv happ with ⟨-, rfl, -⟩ | ⟨-, hs, -⟩
      · rfl
      · exact hs.challenges
    refine ⟨exists_recorded_of_consume hu ha hcha hc, ?_⟩
    obtain ⟨-, rfl⟩ := consumeChallenge_eq_ok hc
    rcases appendHandleInTransaction_eq_ok hinv happ with
      ⟨hsome, rfl, hf⟩ | ⟨-, hs, rfl⟩
    · obtain ⟨hm, -⟩ := (Table.find_eq_some_iff hbind.nodup).mp (admitHandle_eq_some hsome)
      obtain ⟨row, hrow, hb⟩ := hbind.exists_entry hinv (hbind.sound _ hm)
      simp only [CurrentBindingRow.toHistory] at hrow hb
      refine ⟨row, hrow, hb, ?_⟩
      simp [hrow, hf]
    · obtain ⟨bytes, -, he⟩ := hs.entries
      refine ⟨entryRow (s.handleEntry request) (leafHash bytes), ?_,
        handleBinding_handleEntry s request, ?_⟩
      · simp [he]
      · simp [entryRow, expectedKind_handleEntry]

/-- A committed challenge, retried after any further operations while its row is
still there, returns the same sequence and appends nothing exactly if the first
commit appended its own entry or found one of the request's kind. -/
theorem commitHandleBinding_retry_iff {ctx : RegistryContext} {s s₁ : Store H}
    {clock clock' : CommitClock} {challenge : IdentityChallengeCommit}
    {request : HandleAppendRequest} (hreach : Reachable ctx s)
    (hcommit : s.commitHandleBinding ctx clock (some challenge) request = .ok (s₁, result))
    (ops : List RegistryOp)
    (hkept : ∃ row ∈ s₁.identityChallenges, row.challengeHash = challenge.challengeHash ∧
      row ∈ (runOps ctx ops s₁).identityChallenges) :
    (runOps ctx ops s₁).commitHandleBinding ctx clock' (some challenge) request =
        .ok (runOps ctx ops s₁, ⟨result.seq, false⟩) ↔
      result.appended = true ∨ ∃ row, s.entries[result.seq]? = some row ∧
        expectedKind row.entry request.mode = true := by
  have hreach₁ : Reachable ctx s₁ := by
    have hstep : runOps ctx [.commit clock (some challenge) request] s = s₁ := by
      simp [runOps, RegistryOp.execute, transact_of_ok hcommit]
    exact hstep ▸ hreach.runOps _
  have hreach₂ := hreach₁.runOps ops
  obtain ⟨hinv₁, -, -⟩ := hreach₁.ownership
  obtain ⟨hinv₂, -, -⟩ := hreach₂.ownership
  obtain ⟨⟨row, hrow, hr⟩, entry, he, hb, hk⟩ := exists_entry_of_commit hreach hcommit
  obtain ⟨row', hr', hh, hs⟩ := hkept
  obtain rfl : row' = row := inj_on_of_nodup_map hreach₁.challengesUnique hr' hrow
    (hh.trans hr.hash.symm)
  have hentry₂ := runOps_getElem? ops hinv₁ he
  have hretry : (runOps ctx ops s₁).admitChallenge ctx clock'.expiryCheck challenge request = _ :=
    admitChallenge_of_recorded hreach₂.challengesUnique hs hr
  rw [← hk, ← validateRecoveredHandleBinding_eq_ok_iff hinv₂ hentry₂ hb]
  simp only [commitHandleBinding, hretry]
  cases (runOps ctx ops s₁).validateRecoveredHandleBinding ctx result.seq request with
  | error => simp [Except.map, bind, Except.bind]
  | ok => simp [Except.map, bind, Except.bind, pure, Except.pure]

/-- A handle claimed under one challenge; a second challenge is issued after the
result of the first has expired. -/
def reboundOps : List RegistryOp :=
  [.issue 0 (ascii "github") (ascii "first") aliceHandle (List.replicate 32 0xaa)
      (some (ascii "pkce")) 600000,
    .commit ⟨0, 0, 0⟩ (some (aliceChallenge (ascii "first"))) (aliceRequest .register),
    .issue 1000000 (ascii "github") (ascii "second") aliceHandle (List.replicate 32 0xaa)
      (some (ascii "pkce")) 1600000]

def reboundStore : Store SymbolicHash :=
  runOps symbolicContext reboundOps (Store.fresh symbolicContext)

/-- A rotation to the key already bound succeeds with the claim's sequence. -/
def reboundCommit (mode : HandleAppendMode) :
    Except RegistryError (Store SymbolicHash × HandleAppend) :=
  reboundStore.commitHandleBinding symbolicContext ⟨1000000, 1000000, 1000000⟩
    (some (aliceChallenge (ascii "second"))) (aliceRequest mode)

def reboundRetry (mode : HandleAppendMode) :
    Except RegistryError (Store SymbolicHash × HandleAppend) := do
  let (s, _) ← reboundCommit mode
  s.commitHandleBinding symbolicContext ⟨1000001, 1000001, 1000001⟩
    (some (aliceChallenge (ascii "second"))) (aliceRequest mode)

set_option maxRecDepth 10000 in
/-- A rotation to the key the claim already bound is accepted, and its immediate
retry is rejected. -/
theorem rotation_to_bound_key_not_retryable :
    (reboundCommit .rotate).map Prod.snd = .ok ⟨0, false⟩ ∧
    (reboundRetry .rotate).map Prod.snd =
      .error (.proofRejected "identity challenge was already used for another binding") := by
  constructor <;> decide +kernel

set_option maxRecDepth 10000 in
/-- The same challenge used to register the bound key again can be retried. -/
theorem commitHandleBinding_retry_register : ∃ s, reboundCommit .register = .ok (s, ⟨0, false⟩) ∧
      s.commitHandleBinding symbolicContext ⟨1000001, 1000001, 1000001⟩
        (some (aliceChallenge (ascii "second"))) (aliceRequest .register) =
        .ok (s, ⟨0, false⟩) := by
  have hc : (reboundCommit .register).map Prod.snd = .ok ⟨0, false⟩ := by decide +kernel
  have hk : (reboundStore.entries[0]?.any fun row => expectedKind row.entry .register) = true :=
    by decide +kernel
  obtain ⟨⟨s, result⟩, hok, rfl⟩ := map_eq_ok.mp hc
  obtain ⟨row, hrow, hclaim⟩ := (Option.any_eq_true _ _).mp hk
  have hr : Reachable symbolicContext reboundStore := ⟨reboundOps, rfl⟩
  obtain ⟨⟨stored, hs, hrec⟩, -⟩ := exists_entry_of_commit hr hok
  exact ⟨s, hok, (commitHandleBinding_retry_iff hr hok []
    ⟨stored, hs, hrec.hash, hs⟩).mpr (.inr ⟨row, hrow, hclaim⟩)⟩

end Pigeonpost
