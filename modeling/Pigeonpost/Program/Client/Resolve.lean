import Pigeonpost.Program.Checkpoint
import Pigeonpost.Program.Client.Transfer

/-! # Audited handle resolution (`pigeonpost-registry/src/client.rs`) -/

namespace Pigeonpost

variable {H : Type} [Sha256 H] [HashBytes H] [DecidableEq H]

def maxCheckpointNoteBytes : ℕ := 64 * 1024

/-! ## Trust and state -/

structure CheckpointPin (H : Type) where
  size : ℕ
  root : H

def CheckpointPin.ofCheckpoint (checkpoint : Checkpoint H) : CheckpointPin H :=
  ⟨checkpoint.size, checkpoint.root⟩

/-- Operator-configured trust policy. -/
structure RegistryTrust (H : Type) where
  expectedOrigin : Bytes
  checkpointKey : Bytes
  witnesses : List WitnessKey
  witnessThreshold : ℕ
  minimumCheckpoint : CheckpointPin H
  maxCosignatureAgeSecs : ℕ
  futureClockSkewSecs : ℕ

structure HandleAuditState (H : Type) where
  origin : Bytes
  size : ℕ
  root : H
  checkpointNote : Bytes
  witnessedAt : ℕ
  frontier : MerkleFrontier H

def HandleAuditState.checkpoint (state : HandleAuditState H) : Checkpoint H :=
  ⟨state.origin, state.size, state.root⟩

def validateHandleAuditState (state : HandleAuditState H) (expectedOrigin : Bytes) :
    Except RegistryError Unit :=
  if state.origin ≠ expectedOrigin ∨ state.checkpointNote.isEmpty
      ∨ state.checkpointNote.length > maxCheckpointNoteBytes ∨ state.witnessedAt = 0
      ∨ state.frontier.size ≠ state.size ∨ !state.frontier.validate
      ∨ state.frontier.root ≠ some state.root then
    .error (.malformedCheckpoint "persisted handle audit state is malformed")
  else .ok ()

structure VerifiedHandle (H : Type) where
  handle : Handle
  pubkey : Bytes
  subject : Bytes
  logIndex : ℕ
  entryKind : EntryKind
  checkpoint : Checkpoint H
  witnessedAt : Option ℕ

/-- The registry client: its trust and the collaborators behind the source's crates. -/
structure RegistryClient (H : Type) where
  trust : RegistryTrust H
  prim : Primitives
  sigs : Signatures
  json : JsonDecoders

/-! ## Checkpoints -/

/-- One turn of the loop in `select_audit_base`. -/
def extendAuditBase (trust : RegistryTrust H) (base : CheckpointPin H)
    (checkpoint : Checkpoint H) : Except RegistryError (CheckpointPin H) :=
  if checkpoint.origin ≠ trust.expectedOrigin ∨ checkpoint.size < trust.minimumCheckpoint.size
      ∨ (checkpoint.size = trust.minimumCheckpoint.size
        ∧ checkpoint.root ≠ trust.minimumCheckpoint.root) then
    .error (.malformedCheckpoint "accepted registry checkpoint conflicts with configured trust")
  else if checkpoint.size > base.size then .ok (.ofCheckpoint checkpoint)
  else if checkpoint.size = base.size ∧ checkpoint.root ≠ base.root then
    .error (.malformedCheckpoint "accepted registry checkpoints equivocate")
  else .ok base

def selectAuditBase (trust : RegistryTrust H) (previous accepted : Option (Checkpoint H)) :
    Except RegistryError (CheckpointPin H) :=
  (previous.toList ++ accepted.toList).foldlM (extendAuditBase trust) trust.minimumCheckpoint

def parseHash (text : Bytes) : Option H := (parseHex32 text).bind HashBytes.ofBytes

def parseHashes (texts : List Bytes) : Except RegistryError (List H) :=
  texts.mapM fun text =>
    match parseHash text with
    | none => .error (.malformedCheckpoint "proof hash is not canonical hex")
    | some hash => .ok hash

def verifyCheckpointWithTrust (sigs : Signatures) (trust : RegistryTrust H) (text : Bytes)
    (size : ℕ) (root : H) (nowSecs : ℕ) : Except RegistryError (VerifiedCheckpoint H) := do
  let verified ←
    if trust.witnessThreshold = 0 then do
      let checkpoint ← Checkpoint.verifyWithWitnesses sigs text trust.checkpointKey
        trust.witnesses 0
      pure (⟨checkpoint, none⟩ : VerifiedCheckpoint H)
    else
      Checkpoint.verifyWithFreshWitnesses sigs text trust.checkpointKey trust.witnesses
        trust.witnessThreshold nowSecs trust.maxCosignatureAgeSecs trust.futureClockSkewSecs
  if verified.checkpoint.origin ≠ trust.expectedOrigin ∨ verified.checkpoint.size ≠ size
      ∨ verified.checkpoint.root ≠ root then
    throw (.malformedCheckpoint "checkpoint does not match the trusted origin or proof root")
  return verified

def verifyGrowth (json : JsonDecoders) (registry : Registry) (base : CheckpointPin H)
    (next : Checkpoint H) : Except RegistryError Unit :=
  if next.size < base.size ∨ (next.size = base.size ∧ next.root ≠ base.root) then
    .error (.malformedCheckpoint "registry checkpoint rolled back or equivocated")
  else if next.size = base.size then .ok ()
  else if base.size = 0 then
    if base.root ≠ emptyRoot then .error (.malformedCheckpoint "invalid empty-tree trust anchor")
    else .ok ()
  else do
    let proof ← getJson json.consistency (registry (.consistency base.size next.size))
    match parseHash proof.root with
    | none => throw (.malformedCheckpoint "consistency root is not canonical hex")
    | some proofRoot =>
      let path ← parseHashes proof.path
      if proof.start ≠ base.size ∨ proof.finish ≠ next.size ∨ proofRoot ≠ next.root
          ∨ !verifyConsistency base.size base.root next.size next.root path then
        throw (.malformedCheckpoint "registry consistency proof failed")
      return ()

namespace RegistryClient

variable (client : RegistryClient H)

/-! ## The steps of an audit -/

/-- The first step: the checkpoint an audit must extend. -/
def auditBase (previous : Option (HandleAuditState H)) (accepted : Option (Checkpoint H)) :
    Except RegistryError (CheckpointPin H) := do
  if client.trust.witnessThreshold = 0 then
    throw (.invalidConfiguration "handle resolution requires a nonzero witness quorum")
  if let some state := previous then
    validateHandleAuditState state client.trust.expectedOrigin
  selectAuditBase client.trust (previous.map (·.checkpoint)) accepted

def checkResolved (resolved : ResolveResponse) (requestedPath : Bytes) (nowSecs : ℕ) :
    Except RegistryError (VerifiedCheckpoint H × List H) := do
  if resolved.handle ≠ requestedPath ∨ resolved.logIndex ≥ resolved.inclusionProof.treeSize then
    throw (.malformedEntry "resolve response does not name the requested leaf")
  match parseHash resolved.inclusionProof.root with
  | none => throw (.malformedCheckpoint "checkpoint root is not canonical hex")
  | some root =>
    let inclusionPath ← parseHashes resolved.inclusionProof.path
    let verified ← verifyCheckpointWithTrust client.sigs client.trust
      resolved.inclusionProof.checkpoint resolved.inclusionProof.treeSize root nowSecs
    return (verified, inclusionPath)

/-- The exact leaf behind a resolve response: key, subject and kind. -/
def checkExactEntry (handle : Handle) (resolved : ResolveResponse) (page : EntriesResponse)
    (checkpoint : Checkpoint H) (inclusionPath : List H) :
    Except RegistryError (Bytes × Bytes × EntryKind) := do
  if page.start ≠ resolved.logIndex ∨ page.finish ≠ resolved.logIndex + 1
      ∨ page.treeSize ≠ checkpoint.size ∨ parseHash page.root ≠ some checkpoint.root
      ∨ page.checkpoint ≠ resolved.inclusionProof.checkpoint then
    throw (.malformedEntry "exact log range disagrees with the resolved checkpoint")
  match page.entries with
  | [entry] =>
    match entry.handleBinding with
    | none => throw (.malformedEntry "resolved leaf is not a handle binding")
    | some payload =>
      if entry.seq.toNat ≠ resolved.logIndex ∨ payload.handle ≠ handle.asPath
          ∨ payload.pubkey ≠ resolved.pubkey then
        throw (.malformedEntry "resolved projection disagrees with its exact log leaf")
      let leaf ← (entry.leafBytes client.prim).mapError RegistryError.malformedEntry
      if !verifyInclusion (leafHash leaf) resolved.logIndex checkpoint.size inclusionPath
          checkpoint.root then
        throw (.malformedEntry "handle inclusion proof failed")
      match parseHex32 resolved.pubkey with
      | none => throw (.malformedEntry "handle key is not canonical hex")
      | some pubkey =>
        if !client.prim.verifyingKeyFromBytes pubkey then
          throw (.malformedEntry "handle key is invalid")
        return (pubkey, payload.subject, entry.kind)
  | _ => throw (.malformedEntry "exact log range disagrees with the resolved checkpoint")

variable {P : Type} [HandleProjectionStore P]

def startAudit (handle : Handle) (previous : Option (HandleAuditState H))
    (checkpoint : Checkpoint H) (projection : P) :
    Except RegistryError (HandleAuditAccumulator H P × ℕ) :=
  match previous with
  | some state => do
    if state.size > checkpoint.size
        ∨ (state.size = checkpoint.size ∧ state.root ≠ checkpoint.root) then
      throw (.malformedCheckpoint "audited handle state does not extend to this checkpoint")
    let targetBinding ← HandleProjectionStore.binding projection handle
    return (⟨state.frontier, projection, handle.asPath, targetBinding⟩, state.size)
  | none => do
    let projection ← HandleProjectionStore.reset projection
    return (⟨.new, projection, handle.asPath, none⟩, 0)

def auditSegment (registry : Registry) (start finish : ℕ) (acc : HandleAuditAccumulator H P) :
    Except RegistryError (HandleAuditAccumulator H P) := do
  let started ← HandleProjectionStore.beginSegment acc.projection
  let (delivered, outcome) ← auditDumpRange client.prim client.json registry start finish
    { acc with projection := started }
  match outcome with
  | .complete =>
    let projection ← HandleProjectionStore.commitSegment delivered.projection
    return { delivered with projection }
  | .useRangePages =>
    let restored ← HandleProjectionStore.rollbackSegment delivered.projection
    let restarted ← HandleProjectionStore.beginSegment restored
    let replayed ← auditJsonPages client.prim client.json registry start finish
      (⟨acc.frontier, restarted, delivered.requestedPath, acc.targetBinding⟩ :
        HandleAuditAccumulator H P)
    let projection ← HandleProjectionStore.commitSegment replayed.projection
    return { replayed with projection }

/-- The loop over the segments up to a checkpoint. -/
def auditSegments (registry : Registry) (start size : ℕ) (acc : HandleAuditAccumulator H P) :
    Except RegistryError (HandleAuditAccumulator H P) :=
  if _h : start < size then do
    let finish := min (start + auditDumpSegmentEntries) size
    let acc ← client.auditSegment registry start finish acc
    auditSegments registry finish size acc
  else .ok acc
termination_by size - start
decreasing_by
  simp only [auditDumpSegmentEntries]
  omega

omit [HashBytes H] in
/-- The last step: root and latest binding, then the values to return. -/
def finishAudit (handle : Handle) (resolved : ResolveResponse) (verified : VerifiedCheckpoint H)
    (pubkey subject : Bytes) (entryKind : EntryKind) (acc : HandleAuditAccumulator H P) :
    Except RegistryError (VerifiedHandle H × HandleAuditState H × P) := do
  if acc.frontier.size ≠ verified.checkpoint.size
      ∨ acc.frontier.root ≠ some verified.checkpoint.root then
    throw (.malformedCheckpoint "complete registry audit does not reconstruct the witnessed root")
  match acc.targetBinding with
  | none => throw .notFound
  | some binding =>
    let projected ← HandleProjectionStore.binding acc.projection handle
    if projected ≠ some binding then
      throw (.malformedEntry "normalized handle projection disagrees with audited target state")
    if binding.logIndex ≠ resolved.logIndex ∨ binding.pubkey ≠ pubkey
        ∨ binding.subject ≠ subject then
      throw (.malformedEntry "resolved projection is not the latest audited handle binding")
    match verified.witnessedAt with
    | none => throw (.malformedCheckpoint "handle audit is missing its witnessed timestamp")
    | some witnessedAt =>
      return (⟨handle, pubkey, subject, resolved.logIndex, entryKind, verified.checkpoint,
          some witnessedAt⟩,
        ⟨verified.checkpoint.origin, verified.checkpoint.size, verified.checkpoint.root,
          resolved.inclusionProof.checkpoint, witnessedAt, acc.frontier⟩,
        acc.projection)

def resolveAuditedInner (registry : Registry) (handle : Handle)
    (previous : Option (HandleAuditState H)) (accepted : Option (Checkpoint H)) (nowSecs : ℕ)
    (projection : P) : Except RegistryError (VerifiedHandle H × HandleAuditState H × P) := do
  let base ← client.auditBase previous accepted
  let resolved ← getJson client.json.resolve (registry (.resolve handle.nameSpace handle.name))
  let (verified, inclusionPath) ← client.checkResolved resolved handle.asPath nowSecs
  verifyGrowth client.json registry base verified.checkpoint
  if resolved.logIndex + 1 > MerkleFrontier.u64Max then
    throw (.malformedEntry "log index overflowed")
  let page ← getJson client.json.entries
    (registry (.entry resolved.logIndex (resolved.logIndex + 1)))
  let (pubkey, subject, entryKind) ← client.checkExactEntry handle resolved page
    verified.checkpoint inclusionPath
  let (acc, start) ← startAudit handle previous verified.checkpoint projection
  let acc ← client.auditSegments registry start verified.checkpoint.size acc
  finishAudit handle resolved verified pubkey subject entryKind acc

/-- Resolves a handle after deriving its binding from every leaf of a witnessed log,
given whether the audit got its permit and met its deadline. -/
def resolveAudited (admitted inTime : Bool) (registry : Registry) (handle : Handle)
    (previous : Option (HandleAuditState H)) (accepted : Option (Checkpoint H)) (nowSecs : ℕ)
    (projection : P) : Except RegistryError (VerifiedHandle H × HandleAuditState H × P) :=
  if !admitted then .error .overloaded
  else if !inTime then .error .registryUnavailable
  else client.resolveAuditedInner registry handle previous accepted nowSecs projection

end RegistryClient

end Pigeonpost
