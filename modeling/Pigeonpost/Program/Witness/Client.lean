import Pigeonpost.Program.Witness.Server

/-! # The registry's witness client (`pigeonpost-registry/src/witness.rs`) -/

namespace Pigeonpost

inductive WitnessError where
  | invalidConfiguration
  | invalidCheckpoint
  | invalidConsistencyProof
  | requestTooLarge
  | responseTooLarge
  | transportUnavailable
  | rejected
  | invalidCosignature
  | rollback
  | equivocation
  | witnessAhead
  | recoveryUnavailable
  | deadlineExceeded
  | proofUnavailable
  | publicationUnavailable
deriving DecidableEq

def WitnessError.retryable : WitnessError → Bool
  | .transportUnavailable | .recoveryUnavailable => true
  | _ => false

def isAsciiGraphic (b : UInt8) : Bool := 0x21 ≤ b && b ≤ 0x7e

def validOrigin (origin : Bytes) : Bool :=
  !origin.isEmpty && origin.length ≤ 256 && origin.all isAsciiGraphic

/-! ## Configuration -/

/-- A provisioned witness identity, and the path its monitoring serves this log under. -/
structure WitnessConfig where
  witness : WitnessKey
  originHash : Bytes

def WitnessConfig.new (sigs : Signatures) (name key logOrigin : Bytes) :
    Except WitnessError WitnessConfig := do
  let witness ← (WitnessKey.new sigs name key).mapError fun _ => .invalidConfiguration
  if witness.name = logOrigin ∨ !validOrigin logOrigin then throw .invalidConfiguration
  return ⟨witness, hex (sigs.sha256 logOrigin)⟩

/-- Durations in nanoseconds. -/
structure WitnessTiming where
  connectTimeout : ℕ
  requestTimeout : ℕ
  maxCosignatureAge : ℕ
  futureClockSkew : ℕ
  retryInitial : ℕ
  retryMax : ℕ
  retryDeadline : ℕ

def fromSecs (secs : ℕ) : ℕ := secs * 10 ^ 9

def asSecs (duration : ℕ) : ℕ := duration / 10 ^ 9

def WitnessTiming.validate (timing : WitnessTiming) : Except WitnessError WitnessTiming :=
  if timing.connectTimeout = 0
      ∨ timing.connectTimeout > fromSecs 30
      ∨ timing.requestTimeout < timing.connectTimeout
      ∨ timing.requestTimeout > fromSecs 60
      ∨ timing.maxCosignatureAge = 0
      ∨ timing.maxCosignatureAge > fromSecs (24 * 60 * 60)
      ∨ timing.futureClockSkew > timing.maxCosignatureAge
      ∨ timing.retryInitial = 0
      ∨ timing.retryInitial > timing.retryMax
      ∨ timing.retryMax > fromSecs 30
      ∨ timing.retryDeadline < timing.requestTimeout
      ∨ timing.retryDeadline > fromSecs (5 * 60) then
    .error .invalidConfiguration
  else .ok timing

structure WitnessClient where
  config : WitnessConfig
  origin : Bytes
  operatorKey : Bytes
  timing : WitnessTiming

def WitnessClient.new (config : WitnessConfig) (origin operatorKey : Bytes)
    (timing : WitnessTiming) : Except WitnessError WitnessClient := do
  let timing ← timing.validate
  if !validOrigin origin ∨ origin = config.witness.name then throw .invalidConfiguration
  return ⟨config, origin, operatorKey, timing⟩

structure WitnessReceipt (H : Type) where
  version : ℕ
  witnessName : Bytes
  origin : Bytes
  size : ℕ
  root : H
  note : Bytes
  witnessedAt : ℕ
deriving DecidableEq

namespace WitnessClient

def maxResponseBytes : ℕ := 64 * 1024

def maxRequestBytes : ℕ := 72 * 1024

def maxConsistencyHashes : ℕ := 63

def maxSignatureLines : ℕ := 64

def maxSignatureLineBytes : ℕ := 512

def maxConflictBodyBytes : ℕ := 32

def receiptVersion : ℕ := 1

def endsWithNewline (text : Bytes) : Bool := text.getLast? == some newline

def lineStart (name : Bytes) : Bytes := signatureStart ++ name ++ [space]

/-! ## Requests and replies -/

section Requests

variable {H : Type} [HashBytes H]

def requestBody (oldSize : ℕ) (proof : List H) (operatorNote : Bytes) : Except WitnessError Bytes :=
  if proof.length > maxConsistencyHashes ∨ (oldSize = 0 ∧ !proof.isEmpty) ∨ operatorNote.isEmpty
      ∨ operatorNote.length > maxCheckpointBytes ∨ !endsWithNewline operatorNote then
    .error .invalidConsistencyProof
  else
    let body := ascii "old " ++ decimal oldSize ++ [newline]
      ++ proof.flatMap (fun hash => Base64.encode (HashBytes.toBytes hash) ++ [newline])
      ++ [newline] ++ operatorNote
    if body.length > maxRequestBytes then .error .requestTooLarge else .ok body

end Requests

def parseSizeLine (body : Bytes) : Option ℕ :=
  if !isUtf8 body || !endsWithNewline body then none
  else
    let digits := body.dropLast
    if digits.isEmpty || (digits.length > 1 && digits.head? == some 0x30)
        || !digits.all isAsciiDigit then none
    else parseUnsigned (2 ^ 64) digits

def readLimited (reply : WitnessReply) (limit : ℕ) : Except WitnessError Bytes :=
  if reply.body.length > limit then .error .responseTooLarge else .ok reply.body

inductive SubmitResponse where
  | cosignatures (lines : Bytes)
  | conflict (size : ℕ)

def isServerError (status : ℕ) : Bool := 500 ≤ status && status < 600

/-- What `submit` makes of a reply. A request that failed has none. -/
def readSubmitReply : Option WitnessReply → Except WitnessError SubmitResponse
  | none => .error .transportUnavailable
  | some reply =>
    if reply.status = 200 then do
      let body ← readLimited reply maxResponseBytes
      if !isUtf8 body then throw .invalidCosignature
      return .cosignatures body
    else if reply.status = 409 then
      if !eqIgnoreAsciiCase reply.contentType (ascii "text/x.tlog.size") then
        .error .recoveryUnavailable
      else do
        let body ← readLimited reply maxConflictBodyBytes
        match parseSizeLine body with
        | none => throw .recoveryUnavailable
        | some size => return .conflict size
    else if isServerError reply.status || reply.status == 429 then .error .transportUnavailable
    else .error .rejected

/-- What `fetch_monitored_checkpoint` makes of a reply. -/
def readMonitoredReply : Option WitnessReply → Except WitnessError Bytes
  | none => .error .transportUnavailable
  | some reply =>
    if reply.status = 404 then .error .recoveryUnavailable
    else if isServerError reply.status || reply.status == 429 then .error .transportUnavailable
    else if reply.status ≠ 200 then .error .rejected
    else do
      let body ← readLimited reply maxResponseBytes
      if !isUtf8 body then throw .invalidCosignature
      return body

/-! ## Notes -/

def appendSignature (operatorNote line : Bytes) : Except WitnessError Bytes :=
  if !endsWithNewline operatorNote || line.isEmpty || line.contains newline
      || line.contains 0x0d then
    .error .invalidCosignature
  else if operatorNote.length + line.length + 1 > maxCheckpointBytes then
    .error .responseTooLarge
  else .ok (operatorNote ++ line ++ [newline])

def operatorOnlyNote (note operatorName : Bytes) : Except WitnessError Bytes :=
  match splitOnceAt [newline, newline] note with
  | none => .error .invalidCheckpoint
  | some (body, signatures) =>
    let kept := (lines signatures).filter (lineStart operatorName).isPrefixOf
    if kept.any fun line => line.length > maxSignatureLineBytes then .error .invalidCheckpoint
    else if kept.isEmpty then .error .invalidCheckpoint
    else .ok (body ++ [newline, newline] ++ kept.flatMap (· ++ [newline]))

def onlyNamedSignatures (note expectedName : Bytes) : Except WitnessError Bool :=
  match splitOnceAt [newline, newline] note with
  | none => .error .invalidCheckpoint
  | some (_, signatures) =>
    let signatureLines := lines signatures
    .ok (signatureLines.length ≤ maxSignatureLines
      && signatureLines.all (fun line => line.length ≤ maxSignatureLineBytes
        && (lineStart expectedName).isPrefixOf line)
      && !signatureLines.isEmpty)

/-! ## Receipts -/

section Receipts

variable {H : Type} [HashBytes H] [DecidableEq H] (sigs : Signatures) (client : WitnessClient)

def verifyOperatorNote (note : Bytes) : Except WitnessError (Checkpoint H) := do
  if note.isEmpty || note.length > maxCheckpointBytes || !endsWithNewline note then
    throw .invalidCheckpoint
  if !(← onlyNamedSignatures note client.origin) then throw .invalidCheckpoint
  let checkpoint ← (Checkpoint.verify sigs note client.operatorKey).mapError
    fun _ => WitnessError.invalidCheckpoint
  if checkpoint.origin ≠ client.origin then throw .invalidCheckpoint
  return checkpoint

def verifyStoredReceipt (receipt : WitnessReceipt H) : Except WitnessError (Checkpoint H) := do
  if receipt.version ≠ receiptVersion ∨ receipt.witnessName ≠ client.config.witness.name
      ∨ receipt.origin ≠ client.origin ∨ receipt.witnessedAt = 0
      ∨ receipt.note.length > maxCheckpointBytes then
    throw .invalidCosignature
  let verified ← (Checkpoint.verifyWithFreshWitnesses sigs receipt.note client.operatorKey
    [client.config.witness] 1 i64Max i64Max 0).mapError fun _ => WitnessError.invalidCosignature
  if verified.witnessedAt ≠ some receipt.witnessedAt ∨ verified.checkpoint.origin ≠ receipt.origin
      ∨ verified.checkpoint.size ≠ receipt.size ∨ verified.checkpoint.root ≠ receipt.root then
    throw .invalidCosignature
  return verified.checkpoint

def candidateTimestamp (checkpoint : Checkpoint H) (now : ℕ) (candidate : Bytes) : Option ℕ :=
  match Checkpoint.verifyWithFreshWitnesses (H := H) sigs candidate client.operatorKey
      [client.config.witness] 1 now (asSecs client.timing.maxCosignatureAge)
      (asSecs client.timing.futureClockSkew) with
  | .error _ => none
  | .ok verified =>
    match verified.witnessedAt with
    | none => none
    | some timestamp =>
      if timestamp = 0 ∨ verified.checkpoint.origin ≠ checkpoint.origin
          ∨ verified.checkpoint.size ≠ checkpoint.size
          ∨ verified.checkpoint.root ≠ checkpoint.root then none
      else some timestamp

/-- The loop of `receipt_from_lines`, behind `count` lines. -/
def acceptLines (operatorNote : Bytes) (checkpoint : Checkpoint H) (now : ℕ) :
    ℕ → Option (ℕ × Bytes) → List Bytes → Except WitnessError (Option (ℕ × Bytes))
  | _, accepted, [] => .ok accepted
  | count, accepted, line :: rest =>
    if count + 1 > maxSignatureLines ∨ line.length > maxSignatureLineBytes then
      .error .invalidCosignature
    else if !(lineStart client.config.witness.name).isPrefixOf line then
      acceptLines operatorNote checkpoint now (count + 1) accepted rest
    else
      match appendSignature operatorNote line with
      | .error e => .error e
      | .ok candidate =>
        match candidateTimestamp sigs client checkpoint now candidate with
        | none => acceptLines operatorNote checkpoint now (count + 1) accepted rest
        | some timestamp =>
          if accepted.all fun best => timestamp > best.1 then
            acceptLines operatorNote checkpoint now (count + 1) (some (timestamp, candidate))
              rest
          else acceptLines operatorNote checkpoint now (count + 1) accepted rest

def receiptFromLines (operatorNote : Bytes) (checkpoint : Checkpoint H) (text : Bytes)
    (now : ℕ) : Except WitnessError (WitnessReceipt H) := do
  if text.length > maxResponseBytes then throw .responseTooLarge
  if text.isEmpty || !endsWithNewline text then throw .invalidCosignature
  match ← acceptLines sigs client operatorNote checkpoint now 0 none (lines text) with
  | none => throw .invalidCosignature
  | some (witnessedAt, note) =>
    return { version := receiptVersion
             witnessName := client.config.witness.name
             origin := checkpoint.origin
             size := checkpoint.size
             root := checkpoint.root
             note
             witnessedAt }

def receiptFromNote (note : Bytes) (now : ℕ) : Except WitnessError (WitnessReceipt H) := do
  if note.isEmpty || note.length > maxResponseBytes || !endsWithNewline note then
    throw .invalidCosignature
  let operatorNote ← operatorOnlyNote note client.origin
  let checkpoint ← verifyOperatorNote (H := H) sigs client operatorNote
  match splitOnceAt [newline, newline] note with
  | none => throw .invalidCosignature
  | some (_, signatures) => receiptFromLines sigs client operatorNote checkpoint signatures now

end Receipts

/-! ## One attempt -/

def ensureOrder {H : Type} [DecidableEq H] (old new : Checkpoint H) : Except WitnessError Unit :=
  if old.origin ≠ new.origin ∨ old.size > new.size then .error .rollback
  else if old.size = new.size ∧ old.root ≠ new.root then .error .equivocation
  else .ok ()

/-- A witness service as its client meets it: a submission may change its state and a
request that fails has no reply. -/
structure Service (σ : Type) where
  addCheckpoint : σ → Bytes → Option WitnessReply × σ
  monitoring : σ → Bytes → Option WitnessReply

section Attempt

variable {H σ : Type} [Sha256 H] [HashBytes H] [DecidableEq H] (sigs : Signatures)
  (client : WitnessClient) (service : Service σ) (proofFor : ℕ → ℕ → Except WitnessError (List H))

def checkedProof (old : Option (Checkpoint H)) (target : Checkpoint H) :
    Except WitnessError (List H) :=
  match old with
  | none => .ok []
  | some old => do
    ensureOrder old target
    if old.size = 0 ∨ old.size = target.size then return []
    else
      let proof ← (proofFor old.size target.size).mapError fun _ => WitnessError.proofUnavailable
      if proof.length > maxConsistencyHashes
          ∨ !verifyConsistency old.size old.root target.size target.root proof then
        throw .invalidConsistencyProof
      return proof

def submit (oldSize : ℕ) (proof : List H) (operatorNote : Bytes) (state : σ) :
    Except WitnessError SubmitResponse × σ :=
  match requestBody oldSize proof operatorNote with
  | .error e => (.error e, state)
  | .ok body =>
    let (reply, state) := service.addCheckpoint state body
    (readSubmitReply reply, state)

/-- The checks of `recover_conflict` on the checkpoint that monitoring reports: the
receipt itself when it is for the target, or else the proof to submit from there. -/
def checkMonitored (expectedSize : ℕ) (target : Checkpoint H) (previous : Option (Checkpoint H))
    (monitored : WitnessReceipt H) : Except WitnessError (Option (List H)) := do
  if monitored.size ≠ expectedSize then throw .recoveryUnavailable
  let checkpoint : Checkpoint H := ⟨monitored.origin, monitored.size, monitored.root⟩
  if checkpoint.size > target.size then throw .witnessAhead
  match previous with
  | none => pure ()
  | some previous =>
    ensureOrder previous checkpoint
    if monitored.size > previous.size then
      let proof ← (proofFor previous.size monitored.size).mapError
        fun _ => WitnessError.proofUnavailable
      if proof.length > maxConsistencyHashes
          ∨ !verifyConsistency previous.size previous.root monitored.size monitored.root
            proof then
        throw .equivocation
  ensureOrder checkpoint target
  if monitored.size = target.size then return none
  return some (← checkedProof proofFor (some checkpoint) target)

/-- The end of `recover_conflict`, which goes through the monitoring endpoint. -/
def recoverMonitored (expectedSize : ℕ) (operatorNote : Bytes) (target : Checkpoint H)
    (previous : Option (Checkpoint H)) (now : ℕ) (state : σ) :
    Except WitnessError (WitnessReceipt H) × σ :=
  match (do
      let note ← readMonitoredReply (service.monitoring state client.config.originHash)
      let monitored ← receiptFromNote sigs client note now
      let proof ← checkMonitored proofFor expectedSize target previous monitored
      return (monitored, proof)) with
  | .error e => (.error e, state)
  | .ok (monitored, none) => (.ok monitored, state)
  | .ok (monitored, some proof) =>
    match submit service monitored.size proof operatorNote state with
    | (.error e, state) => (.error e, state)
    | (.ok (.cosignatures text), state) =>
      (receiptFromLines sigs client operatorNote target text now, state)
    | (.ok (.conflict _), state) => (.error .recoveryUnavailable, state)

def recoverConflict (expectedSize : ℕ) (operatorNote : Bytes) (target : Checkpoint H)
    (previous : Option (Checkpoint H)) (now : ℕ) (state : σ) :
    Except WitnessError (WitnessReceipt H) × σ :=
  if expectedSize > target.size then (.error .witnessAhead, state)
  else if expectedSize = target.size then
    match submit service expectedSize ([] : List H) operatorNote state with
    | (.ok (.cosignatures text), state) =>
      (receiptFromLines sigs client operatorNote target text now, state)
    | (.ok (.conflict _), state) | (.error .rejected, state) =>
      recoverMonitored sigs client service proofFor expectedSize operatorNote target previous now
        state
    | (.error e, state) => (.error e, state)
  else
    recoverMonitored sigs client service proofFor expectedSize operatorNote target previous now
      state

/-- What `cosign_attempt` checks and prepares before its first request. -/
def prepareAttempt (operatorNote : Bytes) (previous : Option (WitnessReceipt H)) :
    Except WitnessError (Checkpoint H × Option (Checkpoint H) × List H) := do
  let target ← verifyOperatorNote sigs client operatorNote
  let previousCheckpoint ← match previous with
    | some receipt => (verifyStoredReceipt sigs client receipt).map some
    | none => pure none
  match previousCheckpoint with
  | some old => ensureOrder old target
  | none => pure ()
  let proof ← checkedProof proofFor previousCheckpoint target
  return (target, previousCheckpoint, proof)

def cosignAttempt (operatorNote : Bytes) (previous : Option (WitnessReceipt H)) (now : ℕ)
    (state : σ) : Except WitnessError (WitnessReceipt H) × σ :=
  match prepareAttempt sigs client proofFor operatorNote previous with
  | .error e => (.error e, state)
  | .ok (target, previousCheckpoint, proof) =>
    let oldSize := (previousCheckpoint.map Checkpoint.size).getD 0
    match submit service oldSize proof operatorNote state with
    | (.error e, state) => (.error e, state)
    | (.ok (.cosignatures text), state) =>
      (receiptFromLines sigs client operatorNote target text now, state)
    | (.ok (.conflict expectedSize), state) =>
      recoverConflict sigs client service proofFor expectedSize operatorNote target
        previousCheckpoint now state

end Attempt

end WitnessClient

end Pigeonpost
