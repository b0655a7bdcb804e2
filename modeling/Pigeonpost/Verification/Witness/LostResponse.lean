import Pigeonpost.Verification.Witness.Exchange

/-! # Recovery of a lost response

What one attempt of the registry's client ends in against the shipped service, when
every request is answered. -/

namespace Pigeonpost.WitnessedLog

open WitnessClient Witness List MerkleLog

variable {old new held target : ℕ} {body : Bytes}

section Proofs

variable {H : Type} [Sha256 H] (d : WitnessedLog H sigs)

/-! ## Proofs of the log -/

/-- The proof that leads from one size to another. -/
def growthProof (old new : ℕ) : List H :=
  if old = 0 ∨ old = new then [] else MerkleLog.consistency (d.log.leaves.take new) old true

theorem growthProof_zero (h : old = 0) : d.growthProof old new = [] := by
  simp [growthProof, h]

theorem growthProof_self (size : ℕ) : d.growthProof size size = [] := by
  simp [growthProof]

theorem consistencyProof_eq (hp : 0 < old) (hle : old ≤ new)
    (hn : new ≤ d.log.size) : d.log.consistencyProof old new = some (d.growthProof old new) := by
  unfold size at hn
  rw [consistencyProof, if_neg (by omega), growthProof]
  split
  · rename_i h
    rw [consistency, if_pos (by rw [length_take]; omega), if_pos rfl]
  · rfl

theorem length_growthProof_le_iff (hle : held ≤ target) (htarget : target ≤ d.log.size) :
    (d.growthProof held target).length ≤ maxConsistencyHashes ↔
      ∀ proof ∈ d.log.consistencyProof held target,
        proof.length ≤ maxConsistencyHashes := by
  rcases Nat.eq_zero_or_pos held with rfl | hp
  · simp [growthProof_zero, consistencyProof]
  · simp [d.consistencyProof_eq hp hle htarget]

variable [DecidableEq H]

theorem verifyConsistency_growthProof (hp : 0 < old) (hlt : old < new) (hn : new ≤ d.log.size) :
    verifyConsistency old (d.log.rootOf old) new (d.log.rootOf new) (d.growthProof old new) =
      true := by
  unfold size at hn
  have hl : (d.log.leaves.take new).length = new := by
    rw [length_take]
    omega
  have hproof := verifyConsistency_consistency hp (hlt.le.trans_eq hl.symm)
  rw [hl, take_take, Nat.min_eq_left hlt.le] at hproof
  rw [rootOf_eq_logRoot, rootOf_eq_logRoot, growthProof, if_neg (by omega)]
  exact hproof

theorem ensureOrder_checkpoint (hle : old ≤ new) :
    ensureOrder (d.checkpoint old) (d.checkpoint new) = .ok () := by
  rw [ensureOrder, if_neg, if_neg]
  · rintro ⟨hsize, hr⟩
    exact hr (congrArg d.log.rootOf hsize)
  · rintro (ho | hsize)
    · exact ho rfl
    · exact absurd hsize (Nat.not_lt.mpr hle)

theorem checkedProof_checkpoint (hle : old ≤ new) (hn : new ≤ d.log.size) :
    checkedProof d.proofFor (some (d.checkpoint old)) (d.checkpoint new) =
      if (d.growthProof old new).length ≤ maxConsistencyHashes then
        .ok (d.growthProof old new)
      else .error .invalidConsistencyProof := by
  rw [checkedProof, d.ensureOrder_checkpoint hle]
  by_cases hs : old = 0 ∨ old = new
  · have hnil : d.growthProof old new = [] := by rw [growthProof, if_pos hs]
    rw [hnil]
    refine Eq.trans (if_pos hs) ?_
    simp [pure, Except.pure]
  · have hf : d.proofFor old new = .ok (d.growthProof old new) := by
      rw [proofFor, d.consistencyProof_eq (by omega) hle hn]
    have hv := d.verifyConsistency_growthProof (by omega : 0 < old) (by omega) hn
    simp only [bind, Except.bind, checkpoint, if_neg hs, hf, Except.mapError, hv,
      Bool.not_true, Bool.false_eq_true, or_false]
    by_cases hl : (d.growthProof old new).length ≤ maxConsistencyHashes
    · rw [if_pos hl, if_neg (Nat.not_lt.mpr hl)]
      rfl
    · rw [if_neg hl, if_pos (Nat.not_le.mp hl)]
      rfl

end Proofs

variable {H : Type} [Sha256 H] [HashBytes H] [DecidableEq H] {sigs : Signatures}
  (d : WitnessedLog H sigs) {previous : Option (WitnessReceipt H)} {events : List Witness.Event}
  {server : Witness.Server H}

/-! ## States that the registry's submissions reach -/

/-- What the service keeps of the log at a size. -/
def stored (size : ℕ) : Stored H := ⟨size, d.log.rootOf size, d.operatorNote size⟩

/-- A body that the registry's client may have sent: the note of some size, with whatever
old size and proof. -/
def Sends (body : Bytes) : Prop :=
  ∃ oldSize proof size, size ≤ d.log.size ∧
    requestBody (H := H) oldSize proof (d.operatorNote size) = .ok body

/-- Submissions come from this registry. The service may fail to save, and crash. -/
def FromRegistry : Witness.Event → Prop
  | .submission body _ _ | .crashDuring body _ _ => d.Sends body
  | .crash => True

/-- Nothing, or a checkpoint of this log. -/
def OfLog (state : Option (Stored H)) : Prop :=
  ∀ current, state = some current → ∃ size ≤ d.log.size, current = d.stored size

omit [Sha256 H] [DecidableEq H] in
theorem note_of_parseSubmission {head note : Bytes} {submission : Submission H}
    (hs : splitOnceAt [newline, newline] body = some (head, note))
    (h : parseSubmission body = some submission) : submission.note = note := by
  rw [parseSubmission, hs] at h
  simp only [Option.bind_eq_bind, Option.bind_some] at h
  split at h
  · cases h
  simp only [Option.bind_eq_some_iff] at h
  obtain ⟨digits, -, oldSize, -, proof, -, h⟩ := h
  split at h
  · cases h
  · rw [← Option.some.inj h]

theorem stored_of_cosign (hsigs : sigs.Lawful) (h32 : Hashes32 H) {line : Bytes} {now : ℕ}
    {state : Option (Stored H)} {next : Stored H} (hs : d.Sends body)
    (h : cosign sigs d.witness state body now = .ok (next, line)) :
    ∃ size ≤ d.log.size, next = d.stored size := by
  obtain ⟨oldSize, proof, size, hsize, hb⟩ := hs
  rw [requestBody_eq] at hb
  split at hb
  · cases hb
  split at hb
  · cases hb
  obtain ⟨submission, checkpoint, hr, -, -, rfl⟩ := cosign_eq_ok.mp h
  obtain ⟨-, -, hp, hv, -⟩ := readSubmission_eq_ok.mp hr
  rw [← Except.ok.inj hb] at hp
  have hn := note_of_parseSubmission (splitOnceAt_requestText h32 _ _ _) hp
  rw [hn] at hv ⊢
  have hc := (d.verify_operatorNote hsigs h32 hsize).symm.trans hv
  rw [← Except.ok.inj hc]
  exact ⟨size, hsize, rfl⟩

/-- The memory and the state file hold nothing but checkpoints of this log. -/
structure ServesLog (server : Witness.Server H) : Prop where
  memory : d.OfLog server.memory
  file : d.OfLog (Witness.loadState server.file)

variable {d} in
theorem ServesLog.addCheckpoint (hsigs : sigs.Lawful) (h32 : Hashes32 H) (h : d.ServesLog server)
    (hs : d.Sends body) (now : ℕ) (save : Witness.Save) :
    d.ServesLog (Witness.addCheckpoint sigs d.witness server body now save).1 := by
  unfold Witness.addCheckpoint
  cases hcos : Witness.cosign sigs d.witness server.memory body now with
  | error => exact h
  | ok result =>
    obtain ⟨next, line⟩ := result
    have hn : d.OfLog (some next) := by
      intro current hc
      rw [← Option.some.inj hc]
      exact d.stored_of_cosign hsigs h32 hs hcos
    cases save with
    | written => exact ⟨hn, by simpa only [saveState, loadState_serialize]⟩
    | failed renamed =>
      refine ⟨h.memory, ?_⟩
      cases renamed with
      | false => exact h.file
      | true => simpa only [saveState, loadState_serialize]

/-- Runs on this registry's submissions keep nothing but checkpoints of its log. -/
theorem servesLog_run (hsigs : sigs.Lawful) (h32 : Hashes32 H)
    (heve : ∀ event ∈ events, d.FromRegistry event) :
    d.ServesLog (run (H := H) sigs d.witness events).1 := by
  refine Machine.run_invariant (fun server _ => d.ServesLog server)
    ⟨by simp [OfLog, Witness.Server.empty], by simp [OfLog, Witness.Server.empty, loadState]⟩
    events ?_
  intro event hm server _ h
  have he := heve event hm
  cases event with
  | submission _ now save => exact h.addCheckpoint hsigs h32 he now save
  | crash => exact ⟨h.file, h.file⟩
  | crashDuring _ now renamed =>
    have ha := h.addCheckpoint hsigs h32 he now (.failed renamed)
    exact ⟨ha.file, ha.file⟩

/-! ## Submissions to the service -/

/-- The shipped service behind requests that all get through. The clock gives the time
of each submission. -/
def service (clock : ℕ → ℕ) : WitnessClient.Service (Witness.Server H × ℕ) where
  addCheckpoint state body :=
    let (server, reply) :=
      Witness.addCheckpoint sigs d.witness state.1 body (clock state.2) .written
    (some reply, server, state.2 + 1)
  monitoring state originHash := some (Witness.monitoring sigs d.witness state.1 originHash)

section Submit

variable (hs : sigs.Lawful) (h32 : Hashes32 H) {server : Witness.Server H} {size oldSize target : ℕ}
  (hm : server.memory = some (d.stored size)) (clock : ℕ → ℕ) (count : ℕ) {proof : List H}
  (hold : oldSize ≤ d.log.size) (ht : target ≤ d.log.size)
  (hp : proof.length ≤ maxConsistencyHashes) (he : oldSize = 0 → proof = [])

include hs h32 hm hold ht hp he

theorem submit_conflict (hl : size ≤ d.log.size) (hne : oldSize ≠ size) :
    submit (d.service clock) oldSize proof (d.operatorNote target) (server, count) =
      (.ok (.conflict size), server, count + 1) := by
  have ho64 := hold.trans_lt d.size_lt
  have hc : cosign sigs d.witness server.memory
      (requestText oldSize proof (d.operatorNote target)) (clock count) =
        .error (conflict size) := by
    rw [cosign, d.readSubmission_requestText hs h32 ho64 ht hp he, hm]
    have hg : checkGrowth (some (d.stored size))
        ⟨oldSize, proof, d.operatorNote target⟩ (d.checkpoint target) =
          .error (conflict size) := if_pos hne
    simp only [bind, Except.bind, hg]
  rw [submit, d.requestBody_operatorNote hs h32 ho64 ht hp he]
  simp only [service, addCheckpoint, hc, readSubmitReply_conflict (hl.trans_lt d.size_lt)]

theorem submit_accept (hck : clock count ≤ i64Max) (hg : checkGrowth (some (d.stored size))
      ⟨oldSize, proof, d.operatorNote target⟩ (d.checkpoint target) = .ok ()) :
    ∃ state, submit (d.service clock) oldSize proof (d.operatorNote target) (server, count) =
      (.ok (.cosignatures (d.cosignatureText target (clock count) ++ [newline])), state) := by
  have ho64 := hold.trans_lt d.size_lt
  have hc : cosign sigs d.witness server.memory
      (requestText oldSize proof (d.operatorNote target)) (clock count) =
        .ok (d.stored target, d.cosignatureText target (clock count) ++ [newline]) := by
    refine cosign_eq_ok.mpr ⟨_, _, d.readSubmission_requestText hs h32 ho64 ht hp he, ?_, ?_, rfl⟩
    · rw [hm]
      exact hg
    · exact Checkpoint.cosignatureLine_eq d.config_spec.1 hck
  have hline : (d.cosignatureText target (clock count) ++ [newline]).length ≤
      WitnessClient.maxResponseBytes := by
    have hl := d.length_cosignatureText_le hs target (clock count)
    rw [length_append, length_singleton, WitnessClient.maxResponseBytes]
    omega
  rw [submit, d.requestBody_operatorNote hs h32 ho64 ht hp he]
  simp only [service, addCheckpoint, hc]
  rw [readSubmitReply_line hline (isUtf8_signatureLine d.name_utf8 _)]
  exact ⟨_, rfl⟩

end Submit

/-! ## One attempt -/

/-- The receipt that the registry holds, for a checkpoint of this log, or none. -/
def Holds (held : ℕ) : Option (WitnessReceipt H) → Prop
  | none => held = 0
  | some receipt =>
    verifyStoredReceipt sigs d.client receipt = .ok (d.checkpoint held)

theorem checkGrowth_growthProof {size : ℕ} (hle : size ≤ target) (htarget : target ≤ d.log.size) :
    checkGrowth (some (d.stored size))
      ⟨size, d.growthProof size target, d.operatorNote target⟩ (d.checkpoint target) = .ok () := by
  simp only [checkGrowth]
  split
  · next hold => exact absurd rfl hold
  · split
    · rename_i hs
      split
      · next hr => exact absurd (congrArg d.log.rootOf hs) hr
      · rfl
    · rename_i hne
      have hlt : size < target := lt_of_le_of_ne hle (Ne.symm hne)
      split
      · rename_i hz
        split
        · next hr => exact absurd (congrArg d.log.rootOf hz) hr
        · rfl
      · rename_i hp
        have hsize : 0 < size := Nat.pos_of_ne_zero hp
        have hv := d.verifyConsistency_growthProof hsize hlt htarget
        split
        · next hproof => simp [stored, checkpoint, hv] at hproof
        · rfl

theorem prepareAttempt_eq (hsigs : sigs.Lawful) (h32 : Hashes32 H) (hheld : d.Holds held previous)
    (hle : held ≤ target) (htarget : target ≤ d.log.size) :
    prepareAttempt sigs d.client d.proofFor (d.operatorNote target) previous =
      if (d.growthProof held target).length ≤ maxConsistencyHashes then
        .ok (d.checkpoint target, previous.map fun _ => d.checkpoint held,
          d.growthProof held target)
      else .error .invalidConsistencyProof := by
  rw [prepareAttempt, d.verifyOperatorNote_operatorNote hsigs h32 htarget]
  cases previous with
  | none =>
    have hz : held = 0 := hheld
    subst hz
    rfl
  | some receipt =>
    have hc := d.checkedProof_checkpoint hle htarget
    have ho := d.ensureOrder_checkpoint hle
    have hr : verifyStoredReceipt sigs d.client receipt = .ok (d.checkpoint held) := hheld
    simp only [bind, Except.bind, hr, Except.map, ho, hc]
    by_cases hl : (d.growthProof held target).length ≤ maxConsistencyHashes
    · simp only [if_pos hl]
      rfl
    · simp only [if_neg hl]

/-- When the client's attempt ends with a receipt. -/
def Recovers (held size target : ℕ) : Prop :=
  (held = size ∨ size = target) ∧
    ∀ proof ∈ d.log.consistencyProof held target, proof.length ≤ maxConsistencyHashes

theorem recoverMonitored_eq (hsigs : sigs.Lawful) (h32 : Hashes32 H)
    {size : ℕ} (hserver : server.memory = some (d.stored size)) (hsize : size ≤ d.log.size)
    (clock : ℕ → ℕ) (note : Bytes) (target : Checkpoint H) (previous : Option (Checkpoint H))
    (expectedSize now count : ℕ) :
    (recoverMonitored sigs d.client (d.service clock) d.proofFor expectedSize note
      target previous now (server, count)).1 = .error .invalidCosignature := by
  have hm : (d.service clock).monitoring (server, count) d.client.config.originHash =
      some (text 200 (d.operatorNote size)) := by
    rw [d.client_spec.1, d.config_spec.2]
    simp [service, monitoring, witness, hserver, stored]
  have hr : readMonitoredReply (some (text 200 (d.operatorNote size))) =
      .ok (d.operatorNote size) := by
    have hl : ¬(d.operatorNote size).length > WitnessClient.maxResponseBytes :=
      Nat.not_lt.mpr ((d.length_operatorNote_le hsigs h32 hsize).trans (by decide))
    simp [readMonitoredReply, text, isServerError, readLimited, hl, bind, Except.bind,
      d.isUtf8_operatorNote, pure, Except.pure]
  rw [recoverMonitored, hm, hr]
  simp only [bind, Except.bind, d.receiptFromNote_operatorNote hsigs h32 hsize]

theorem oldSize_of_holds (hheld : d.Holds held previous) :
    ((previous.map fun _ => d.checkpoint held).map Checkpoint.size).getD 0 = held := by
  cases previous with
  | none => exact (show held = 0 from hheld).symm
  | some => rfl

/-- How an attempt on the note of a size ends. -/
def attempt (clock : ℕ → ℕ) (server : Witness.Server H) (previous : Option (WitnessReceipt H))
    (target now : ℕ) : Except WitnessError (WitnessReceipt H) :=
  (cosignAttempt sigs d.client (d.service clock) d.proofFor (d.operatorNote target)
    previous now (server, 0)).1

section Attempt

variable (hsi : sigs.Lawful) (h32 : Hashes32 H) {server : Witness.Server H}
  {size held target now : ℕ} (hse : server.memory = some (d.stored size))
  {previous : Option (WitnessReceipt H)} (hh : d.Holds held previous) (hle : held ≤ size)
  (hsize : size ≤ target) (ht : target ≤ d.log.size) {clock : ℕ → ℕ}

include hsi h32 hh hle hsize ht

/-- The client gives up before its first request when its own proof is too long. -/
theorem attempt_of_long (hl : ¬(d.growthProof held target).length ≤ maxConsistencyHashes) :
    d.attempt clock server previous target now = .error .invalidConsistencyProof := by
  have hp := d.prepareAttempt_eq hsi h32 hh (hle.trans hsize) ht
  rw [if_neg hl] at hp
  rw [attempt, cosignAttempt, hp]

include hse

/-- A witness at the receipt's size answers the first request. -/
theorem attempt_of_same (hc : ∀ count, d.ClockAgrees now (clock count)) (hsame : held = size)
    (hl : (d.growthProof held target).length ≤ maxConsistencyHashes) :
    d.attempt clock server previous target now = .ok (d.receipt target (clock 0)) := by
  subst hsame
  have hp := d.prepareAttempt_eq hsi h32 hh hsize ht
  rw [if_pos hl] at hp
  obtain ⟨state, hs⟩ := d.submit_accept hsi h32 hse clock 0 (hsize.trans ht) ht hl
    d.growthProof_zero (hc 0).fresh.le (d.checkGrowth_growthProof hsize ht)
  rw [attempt, cosignAttempt, hp]
  simp only [d.oldSize_of_holds hh, hs]
  exact d.receiptFromLines_cosignature hsi h32 ht (hc 0)

theorem attempt_of_conflict (hne : held ≠ size)
    (hl : (d.growthProof held target).length ≤ maxConsistencyHashes) :
    d.attempt clock server previous target now =
      (recoverConflict sigs d.client (d.service clock) d.proofFor size
        (d.operatorNote target) (d.checkpoint target) (previous.map fun _ => d.checkpoint held) now
        (server, 1)).1 := by
  have hp := d.prepareAttempt_eq hsi h32 hh (hle.trans hsize) ht
  rw [if_pos hl] at hp
  have hs := d.submit_conflict hsi h32 hse clock 0 (hle.trans (hsize.trans ht))
    ht hl d.growthProof_zero (hsize.trans ht) hne
  rw [attempt, cosignAttempt, hp]
  simp only [d.oldSize_of_holds hh, hs]

omit hle hh in
/-- A witness that already has the target cosigns it again. -/
theorem recoverConflict_of_target (hc : ∀ count, d.ClockAgrees now (clock count))
    (hf : size = target) (before : Option (Checkpoint H)) :
    (recoverConflict sigs d.client (d.service clock) d.proofFor size
      (d.operatorNote target) (d.checkpoint target) before now (server, 1)).1 =
        .ok (d.receipt target (clock 1)) := by
  subst hf
  have hg := d.checkGrowth_growthProof le_rfl ht
  rw [growthProof_self] at hg
  obtain ⟨state, hs⟩ := d.submit_accept hsi h32 hse clock 1 ht ht (Nat.zero_le _)
    (fun _ => rfl) (hc 1).fresh.le hg
  have he : size = (d.checkpoint size).size := rfl
  rw [recoverConflict, if_neg (by simp [checkpoint]), if_pos he, hs]
  exact d.receiptFromLines_cosignature hsi h32 ht (hc 1)

omit hle hh in
/-- A witness in between is only reached through monitoring, whose note is refused. -/
theorem recoverConflict_of_between (hlt : size < target) (before : Option (Checkpoint H)) :
    (recoverConflict sigs d.client (d.service clock) d.proofFor size
      (d.operatorNote target) (d.checkpoint target) before now (server, 1)).1 =
        .error .invalidCosignature := by
  have hb : ¬size > (d.checkpoint target).size := Nat.not_lt.mpr hsize
  have hne : size ≠ (d.checkpoint target).size := hlt.ne
  rw [recoverConflict, if_neg hb, if_neg hne]
  exact d.recoverMonitored_eq hsi h32 hse (hsize.trans ht) clock _ _ _ _ _ _

end Attempt

/-- One attempt in which every request is answered returns a receipt for the target
exactly when the witness is still at the held receipt's size or already has the target,
and the proof between them is not too long. Otherwise the client ends in an error that
it does not retry. -/
theorem attempt_recovers_iff (hsigs : sigs.Lawful) (h32 : Hashes32 H)
    (hevents : ∀ event ∈ events, d.FromRegistry event) {current : Stored H}
    (hcurrent : (run sigs d.witness events).1.memory = some current) {held : ℕ}
    (hheld : d.Holds held previous) (hle : held ≤ current.size) {target : ℕ}
    (hsize : current.size ≤ target) (htarget : target ≤ d.log.size) {now : ℕ} {clock : ℕ → ℕ}
    (hclock : ∀ count, d.ClockAgrees now (clock count)) :
    ((∃ receipt, d.attempt clock (run sigs d.witness events).1 previous target now =
          .ok receipt ∧ receipt.witnessName = d.name ∧ receipt.origin = d.origin ∧
          receipt.size = target ∧ receipt.root = d.log.rootOf target) ↔
        d.Recovers held current.size target) ∧
      (¬d.Recovers held current.size target →
        ∃ e, d.attempt clock (run sigs d.witness events).1 previous target now = .error e ∧
          e.retryable = false) := by
  obtain ⟨size, hlog, rfl⟩ := (d.servesLog_run hsigs h32 hevents).memory current hcurrent
  generalize (run (H := H) sigs d.witness events).1 = server at hcurrent ⊢
  have hl' : held ≤ size := hle
  have hs' : size ≤ target := hsize
  have hiff := d.length_growthProof_le_iff (hl'.trans hs') htarget
  by_cases hr : d.Recovers held size target
  · have hl := hiff.mpr hr.2
    have hok : ∃ reading, d.attempt clock server previous target now =
        .ok (d.receipt target reading) := by
      by_cases hs : held = size
      · exact ⟨_, d.attempt_of_same hsigs h32 hcurrent hheld hl' hs' htarget hclock hs hl⟩
      · refine ⟨clock 1, ?_⟩
        rw [d.attempt_of_conflict hsigs h32 hcurrent hheld hl' hs' htarget hs hl]
        exact d.recoverConflict_of_target hsigs h32 hcurrent hs' htarget hclock
          (hr.1.resolve_left hs) _
    obtain ⟨reading, hok⟩ := hok
    exact ⟨⟨fun _ => hr, fun _ => ⟨_, hok, rfl, rfl, rfl, rfl⟩⟩, fun hn => absurd hr hn⟩
  · have herror : ∃ e, d.attempt clock server previous target now = .error e ∧
        e.retryable = false := by
      by_cases hl : (d.growthProof held target).length ≤ maxConsistencyHashes
      · have hne : held ≠ size := fun hs => hr ⟨.inl hs, hiff.mp hl⟩
        have hlt : size < target := lt_of_le_of_ne hs' fun hf => hr ⟨.inr hf, hiff.mp hl⟩
        refine ⟨.invalidCosignature, ?_, rfl⟩
        rw [d.attempt_of_conflict hsigs h32 hcurrent hheld hl' hs' htarget hne hl]
        exact d.recoverConflict_of_between hsigs h32 hcurrent hs' htarget hlt _
      · exact ⟨_, d.attempt_of_long hsigs h32 hheld hl' hs' htarget hl, rfl⟩
    refine ⟨⟨?_, fun h => absurd h hr⟩, fun _ => herror⟩
    rintro ⟨receipt, hok, -⟩
    obtain ⟨e, he, -⟩ := herror
    exact absurd (hok.symm.trans he) (by simp)

end Pigeonpost.WitnessedLog

namespace Pigeonpost

/-! ## A log of three entries -/

def defaultTiming : WitnessTiming where
  connectTimeout := fromSecs 5
  requestTimeout := fromSecs 15
  maxCosignatureAge := fromSecs (10 * 60)
  futureClockSkew := fromSecs 30
  retryInitial := 250 * 10 ^ 6
  retryMax := fromSecs 15
  retryDeadline := fromSecs 60

def threeEntries : WitnessedLog ByteHash namedSignatures where
  log := ⟨[leafHash [1], leafHash [2], leafHash [3]]⟩
  origin := ascii "registry.test"
  operatorKey := ascii "operator"
  name := ascii "witness.test"
  witnessKey := ascii "witness"
  timing := defaultTiming
  config := ⟨⟨ascii "witness.test", ascii "witness"⟩,
    hex (namedSignatures.sha256 (ascii "registry.test"))⟩
  client := ⟨⟨⟨ascii "witness.test", ascii "witness"⟩,
    hex (namedSignatures.sha256 (ascii "registry.test"))⟩, ascii "registry.test", ascii "operator",
    defaultTiming⟩
  config_eq := rfl
  client_eq := rfl
  size_lt := by decide
  name_utf8 := by decide

namespace threeEntries

open WitnessedLog

/-- The first two sizes are submitted, and the answer for the second is lost. -/
def lostResponse : List Witness.Event :=
  [.submission (requestText (H := ByteHash) 0 [] (threeEntries.operatorNote 1)) 1000 .written,
    .submission (requestText 1 (threeEntries.growthProof 1 2) (threeEntries.operatorNote 2)) 1010
      .written]

theorem fromRegistry_lostResponse : ∀ event ∈ lostResponse, threeEntries.FromRegistry event := by
  intro event hm
  simp only [lostResponse, List.mem_cons, List.not_mem_nil, or_false] at hm
  rcases hm with rfl | rfl
  · exact ⟨0, [], 1, by decide, threeEntries.requestBody_operatorNote namedSignatures_lawful
      ByteHash.hashes32 (by decide) (by decide) (by decide) (by decide)⟩
  · exact ⟨1, threeEntries.growthProof 1 2, 2, by decide, threeEntries.requestBody_operatorNote
      namedSignatures_lawful ByteHash.hashes32 (by decide) (by decide) (by decide +kernel)
      (by decide)⟩

set_option maxRecDepth 10000 in
theorem memory_lostResponse :
    (Witness.run namedSignatures threeEntries.witness lostResponse).1.memory =
      some (threeEntries.stored 2) := by
  decide +kernel

theorem holds_receipt : threeEntries.Holds 1 (some (threeEntries.receipt 1 1000)) := by
  unfold Holds
  decide +kernel

theorem clockAgrees : threeEntries.ClockAgrees 1020 1020 :=
  ⟨⟨by decide, by decide, by decide, by decide, by decide⟩, by decide⟩

/-- Once the log has grown to a third entry, the attempt ends in an error for good. -/
theorem attempt_after_growth : (∀ event ∈ lostResponse, threeEntries.FromRegistry event) ∧
      (Witness.run namedSignatures threeEntries.witness lostResponse).1.memory =
        some (threeEntries.stored 2) ∧
      threeEntries.Holds 1 (some (threeEntries.receipt 1 1000)) ∧
      threeEntries.ClockAgrees 1020 1020 ∧
      threeEntries.attempt (fun _ => 1020)
          (Witness.run namedSignatures threeEntries.witness lostResponse).1
          (some (threeEntries.receipt 1 1000)) 3 1020 = .error .invalidCosignature ∧
      WitnessError.invalidCosignature.retryable = false := by
  refine ⟨fromRegistry_lostResponse, memory_lostResponse, holds_receipt, clockAgrees, ?_, rfl⟩
  decide +kernel

/-- Before the log grows, the same attempt gets its receipt. -/
theorem attempt_before_growth : ∃ receipt, threeEntries.attempt (fun _ => 1020)
        (Witness.run namedSignatures threeEntries.witness lostResponse).1
        (some (threeEntries.receipt 1 1000)) 2 1020 = .ok receipt ∧
      receipt.witnessName = ascii "witness.test" ∧ receipt.origin = ascii "registry.test" ∧
      receipt.size = 2 ∧ receipt.root = threeEntries.log.rootOf 2 := by
  have hsize : (threeEntries.stored 2).size ≤ 2 := by decide
  have htarget : 2 ≤ threeEntries.log.size := by decide
  have hc : ∀ count : ℕ, threeEntries.ClockAgrees 1020 ((fun _ => 1020) count) :=
    fun _ => clockAgrees
  have hiff := (threeEntries.attempt_recovers_iff namedSignatures_lawful ByteHash.hashes32
    fromRegistry_lostResponse memory_lostResponse holds_receipt (by decide) hsize htarget hc).1
  refine hiff.mpr ⟨.inr rfl, ?_⟩
  intro proof hproof
  rw [← Option.some.inj hproof]
  decide +kernel

end threeEntries

end Pigeonpost
