import Pigeonpost.Library.Table
import Pigeonpost.Program.Storage.Tables

/-! # Appending log entries (`pigeonpost-registry/src/storage.rs`)

Every function here runs inside one immediate transaction: it maps the store at
the start to the store to commit, and an error rolls back. -/

namespace Pigeonpost

variable {H : Type} [Sha256 H] [HashBytes H] [DecidableEq H]

def maxHandlesPerSubject : ℕ := 3

/-- Runs a transaction: the new store and result, or the old store on an error. -/
def transact (op : Store H → Except RegistryError (Store H × α)) (s : Store H) :
    Store H × Except RegistryError α :=
  match op s with
  | .ok (s', result) => (s', .ok result)
  | .error e => (s, .error e)

/-- `HandleAppend`, `DirectoryAppend` and `ComplianceAppend` of the source. -/
structure AppendResult where
  seq : ℕ
  appended : Bool
deriving DecidableEq

abbrev HandleAppend := AppendResult

abbrev DirectoryAppend := AppendResult

abbrev ComplianceAppend := AppendResult

inductive HandleAppendMode where
  | register
  | rotate
deriving DecidableEq

structure HandleAppendRequest where
  handle : Bytes
  pubkey : Bytes
  subject : Bytes
  tsMs : UInt64
  mode : HandleAppendMode

namespace Store

/-! ## Queries -/

variable (s : Store H)

def currentBinding (handle : Bytes) : Option CurrentBindingRow :=
  s.currentBindings.find? fun row => row.handle = handle

/-- The newest history row of a handle below a sequence number. -/
def bindingBefore (handle : Bytes) (upperBound : ℕ) :
    Except RegistryError (Option HandleHistoryRow) := do
  let upperBound ← toI64 upperBound "published tree size"
  return (s.handleHistory.filter fun row =>
    row.handle = handle ∧ row.seq < upperBound).argmax (·.seq)

def heldBySubject (subject handle : Bytes) : ℕ :=
  s.currentBindings.countP fun row => row.subject = subject ∧ row.handle ≠ handle

variable (ctx : RegistryContext)

def parseEntryRow (row : EntryRow H) : Except RegistryError LogEntry := do
  match row.entry.validate ctx.prim with
  | .error e => throw (.corruptStorage ("strict entry decode failed: " ++ e))
  | .ok () =>
    if row.entry.seq.toNat ≠ row.seq ∨ row.entry.version ≠ row.version
        ∨ row.entry.kind.asStr ≠ row.entryType ∨ row.entry.tsMs.toNat ≠ row.tsMs then
      throw (.corruptStorage "entry columns disagree with the canonical entry")
    match row.entry.leafBytes ctx.prim with
    | .error e => throw (malformedEntry e)
    | .ok bytes =>
      if leafHash bytes ≠ row.leafHash then
        throw (.corruptStorage "entry leaf hash does not match its canonical bytes")
      return row.entry

def entryAt (s : Store H) (seq : ℕ) :
    Except RegistryError (Option LogEntry) := do
  let seq ← toI64 seq "entry sequence"
  match s.entries.find? fun row => row.seq = seq with
  | none => return none
  | some row => return some (← parseEntryRow ctx row)

def currentDirectoryMutation (endpoint loftPubkey : Bytes) : Option DirectoryMutationRow :=
  s.directoryMutations.find? fun row => row.stream = (endpoint, loftPubkey)

/-! ## Row insertion -/

def insertHistory (row : HandleHistoryRow) : Except RegistryError (Store H) :=
  if s.handleHistory.any fun old => old.seq = row.seq then
    .error (uniqueViolation "handle_history.seq")
  else .ok { s with handleHistory := s.handleHistory ++ [row] }

def upsertBinding (row : CurrentBindingRow) : Except RegistryError (Store H) :=
  if s.currentBindings.any fun old => old.handle ≠ row.handle ∧ old.seq = row.seq then
    .error (uniqueViolation "current_bindings.seq")
  else .ok { s with currentBindings := Table.upsert (·.handle) row s.currentBindings }

def upsertDirectory (row : DirectoryMutationRow) : Except RegistryError (Store H) :=
  if s.directoryMutations.any fun old =>
      old.stream ≠ row.stream ∧ old.entrySeq = row.entrySeq then
    .error (uniqueViolation "directory_mutations.entry_seq")
  else .ok { s with directoryMutations := Table.upsert (·.stream) row s.directoryMutations }

def updateDirectoryProjection (entry : LogEntry) : Except RegistryError (Store H) :=
  match entry.authenticatedDirectoryMutation with
  | none => .ok s
  | some (endpoint, loftPubkey, mutationSequence) => do
    let mutationSequence ← toI64 mutationSequence.toNat "directory mutation sequence"
    let seq ← toI64 entry.seq.toNat "entry sequence"
    s.upsertDirectory ⟨endpoint, loftPubkey, mutationSequence, seq, entry.kind.asStr⟩

def insertComplianceKey (entry : LogEntry) : Except RegistryError (Store H) :=
  match entry.compliancePublication with
  | none => .ok s
  | some publication => do
    let keyId ← publication.keyId.encode.mapError fun e => .malformedEntry e.toText
    match decodeHex publication.publicKey 32 with
    | none => throw (.malformedEntry "invalid compliance public key")
    | some publicKey =>
      let seq ← toI64 entry.seq.toNat "entry sequence"
      let _ ← toI64 publication.keyId.epochStartMs.toNat "key epoch"
      let notBeforeMs ← toI64 publication.notBeforeMs.toNat "validity start"
      let notAfterMs ← toI64 publication.notAfterMs.toNat "validity end"
      let publishedAtMs ← toI64 entry.tsMs.toNat "publication timestamp"
      if s.complianceKeys.any fun old => old.seq = seq then
        throw (uniqueViolation "compliance_keys.seq")
      return { s with complianceKeys := s.complianceKeys ++
        [⟨seq, keyId, publicKey, notBeforeMs, notAfterMs, publishedAtMs,
          publication.status.tag⟩] }

def insertHandleRows (entry : LogEntry) : Except RegistryError (Store H) :=
  match entry.handleBinding with
  | none => .ok s
  | some ⟨handle, pubkey, subject⟩ => do
    let seq ← toI64 entry.seq.toNat "entry sequence"
    let s ← s.insertHistory ⟨seq, handle, pubkey, subject⟩
    s.upsertBinding ⟨handle, pubkey, subject, seq⟩

def insertEntryRow (s : Store H) (entry : LogEntry) :
    Except RegistryError (Store H) := do
  let leaf ← (entry.leafBytes ctx.prim).mapError malformedEntry
  let seq ← toI64 entry.seq.toNat "entry sequence"
  let tsMs ← toI64 entry.tsMs.toNat "entry timestamp"
  if seq ≠ s.entries.length then throw (.storage "non-contiguous registry log sequence")
  return { s with entries := s.entries ++
    [⟨seq, entry.version, entry.kind.asStr, entry, tsMs, leafHash leaf⟩] }

def insertEntryRows (s : Store H) (entry : LogEntry) :
    Except RegistryError (Store H) := do
  let s ← s.insertEntryRow ctx entry
  let s ← s.insertHandleRows entry
  let s ← s.updateDirectoryProjection entry
  s.insertComplianceKey entry

def insertCheckpoint (row : CheckpointRow H) : Except RegistryError (Store H) :=
  if s.checkpoints.any fun old => old.treeSize = row.treeSize then
    .error (uniqueViolation "checkpoints.tree_size")
  else .ok { s with checkpoints := s.checkpoints ++ [row] }

/-- Appends one entry, its tree nodes and the signed head over it. `nowMs` is the
clock reading for the new checkpoint row. -/
def appendEntryInTransaction (nowMs : ℕ) (entry : LogEntry)
    (s : Store H) : Except RegistryError (Store H) := do
  if entry.seq.toNat ≠ s.registryState.size then
    throw (.corruptStorage ("append sequence " ++ toString entry.seq
      ++ " does not equal current tree size " ++ toString s.registryState.size))
  let size := s.registryState.size + 1
  let s ← s.insertEntryRows ctx entry
  let leaf ← (entry.leafBytes ctx.prim).mapError malformedEntry
  let s ← s.appendMerkleLeaf entry.seq.toNat (leafHash leaf)
  let root ← s.rootForSize size
  let note := Checkpoint.sign ctx.sigs ⟨ctx.origin, size, root⟩ ctx.signingKey
  let treeSize ← toI64 size "tree size"
  let _ ← toI64 nowMs "timestamp"
  let s ← s.insertCheckpoint ⟨treeSize, root, note⟩
  return { s with registryState := ⟨treeSize, root, note⟩ }

/-! ## Handles -/

/-- What the current binding and the mode of a request lead to: an error, an
already committed sequence, or a new leaf. -/
def admitHandle (request : HandleAppendRequest) : Except RegistryError (Option ℕ) :=
  let current := s.currentBinding request.handle
  if request.mode = .register ∧ current = none
      ∧ s.heldBySubject request.subject request.handle ≥ maxHandlesPerSubject then
    .error (.handleQuotaExceeded maxHandlesPerSubject)
  else
    match current, request.mode with
    | none, .rotate => .error .notFound
    | none, .register => .ok none
    | some row, .register =>
      if row.pubkey = request.pubkey ∧ row.subject = request.subject then .ok (some row.seq)
      else .error .alreadyBound
    | some row, .rotate =>
      if row.subject ≠ request.subject then .error .alreadyBound
      else if row.pubkey = request.pubkey then .ok (some row.seq)
      else .ok none

/-- The leaf a request asks for at the end of the log. -/
def handleEntry (request : HandleAppendRequest) : LogEntry :=
  let seq := UInt64.ofNat s.registryState.size
  match request.mode with
  | .register =>
    .ofHandleClaim seq request.handle request.pubkey request.subject request.tsMs
  | .rotate =>
    .ofHandleRotation seq request.handle request.pubkey request.subject request.tsMs

def appendHandleInTransaction (nowMs : ℕ)
    (request : HandleAppendRequest) (s : Store H) :
    Except RegistryError (Store H × HandleAppend) := do
  match ← s.admitHandle request with
  | some seq => return (s, ⟨seq, false⟩)
  | none =>
    let entry := s.handleEntry request
    (entry.validate ctx.prim).mapError malformedEntry
    let s' ← s.appendEntryInTransaction ctx nowMs entry
    return (s', ⟨entry.seq.toNat, true⟩)

/-! ## Compliance keys -/

/-- The state machine of a compliance key. An exact retry yields the committed
sequence. -/
def validateComplianceTransition (entry : LogEntry) : Except RegistryError (Option ℕ) :=
  match entry.compliancePublication with
  | none => .error (.corruptStorage "compliance append received another entry kind")
  | some publication => do
    let keyId ← publication.keyId.encode.mapError fun e => .malformedEntry e.toText
    match (s.complianceKeys.filter fun row => row.keyId = keyId).argmax (·.seq) with
    | none =>
      if publication.status ≠ .active then
        throw (.malformedEntry "the first compliance-key publication must be active")
      return none
    | some previous =>
      match decodeHex publication.publicKey 32 with
      | none => throw (.malformedEntry "invalid compliance public key")
      | some publicKey =>
        if previous.publicKey ≠ publicKey
            ∨ previous.notBeforeMs ≠ publication.notBeforeMs.toNat
            ∨ previous.notAfterMs ≠ publication.notAfterMs.toNat then
          throw (.malformedEntry
            "a compliance key status entry cannot redefine its key or validity interval")
        if publication.status.tag = previous.status then return some previous.seq
        if publication.status.tag ≤ previous.status
            ∨ ¬(publication.status = .retired ∨ publication.status = .revoked) then
          throw (.malformedEntry ("compliance key status transitions must advance "
            ++ "active -> retired/revoked or retired -> revoked"))
        return none

def appendComplianceKey (nowMs : ℕ) (publication : ComplianceKeyPublish)
    (tsMs : UInt64) (s : Store H) : Except RegistryError (Store H × ComplianceAppend) := do
  let seq := s.registryState.size
  let entry := LogEntry.complianceKey (UInt64.ofNat seq) publication tsMs
  (entry.validate ctx.prim).mapError malformedEntry
  match ← s.validateComplianceTransition entry with
  | some existingSeq => return (s, ⟨existingSeq, false⟩)
  | none =>
    let s' ← s.appendEntryInTransaction ctx nowMs entry
    return (s', ⟨seq, true⟩)

/-! ## Directory mutations -/

inductive DirectoryMutation where
  | add (payload : DirectoryAdd)
  | remove (payload : DirectoryRemove)

def directoryEntry (mutation : DirectoryMutation) (tsMs : UInt64) : LogEntry :=
  let seq := UInt64.ofNat s.registryState.size
  match mutation with
  | .add payload => .ofDirectoryAdd seq payload tsMs
  | .remove payload => .ofDirectoryRemove seq payload tsMs

/-- Whether a stored entry carries the very payload of a new one. -/
def isExactRetry : LogEntry → LogEntry → Bool
  | .directoryAdd previous, .directoryAdd next => previous.payload = next.payload
  | .directoryRemove previous, .directoryRemove next => previous.payload = next.payload
  | _, _ => false

/-- The replay check of a loft's mutation stream. -/
def admitDirectory (s : Store H) (entry : LogEntry)
    (endpoint loftPubkey : Bytes) (mutationSequence : ℕ) : Except RegistryError (Option ℕ) :=
  match s.currentDirectoryMutation endpoint loftPubkey with
  | none =>
    if entry.kind = .directoryRemove then .error .notFound
    else if mutationSequence > 1 then .error .directoryReplay
    else .ok none
  | some row =>
    if mutationSequence < row.mutationSequence then .error .directoryReplay
    else if mutationSequence = row.mutationSequence then do
      match ← s.entryAt ctx row.entrySeq with
      | none => throw (.corruptStorage "directory projection points at a missing entry")
      | some existing =>
        if !isExactRetry existing entry then throw .directoryReplay
        return some row.entrySeq
    else .ok none

def appendDirectoryMutation (nowMs : ℕ) (mutation : DirectoryMutation)
    (tsMs : UInt64) (s : Store H) : Except RegistryError (Store H × DirectoryAppend) := do
  let entry := s.directoryEntry mutation tsMs
  (entry.validate ctx.prim).mapError malformedEntry
  match entry.authenticatedDirectoryMutation with
  | none =>
    throw (.malformedEntry "directory append requires the original loft authentication")
  | some (endpoint, loftPubkey, mutationSequence) =>
    match ← s.admitDirectory ctx entry endpoint loftPubkey mutationSequence.toNat with
    | some existingSeq => return (s, ⟨existingSeq, false⟩)
    | none =>
      let s' ← s.appendEntryInTransaction ctx nowMs entry
      return (s', ⟨entry.seq.toNat, true⟩)

end Store

end Pigeonpost
