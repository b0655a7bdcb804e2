import Pigeonpost.Program.Seal.Segment

/-! # Terminal epoch manifests (`pigeonpost-compliance-seal/src/manifest.rs`) -/

namespace Pigeonpost

def manifestMagic : Bytes := ascii "PPEPOCH" ++ [0]

def epochManifestVersion : UInt8 := 1

def manifestSignatureDomain : Bytes := ascii "pigeonpost/trace-epoch-manifest/v1"

def manifestHeaderLen : ℕ := 204

def epochManifestEntryLen : ℕ := 120

def epochManifestFixedLen : ℕ := manifestHeaderLen + 64

def maxEpochManifestSegments : ℕ := 65536

def maxEpochManifestBytes : ℕ :=
  epochManifestFixedLen + maxEpochManifestSegments * epochManifestEntryLen

/-- The signing capability of a node. -/
structure SegmentSigner where
  verifyingKey : Bytes32
  sign : Bytes → Vector UInt8 64

/-! ## Entries -/

/-- One member of an epoch's ordered segment inventory. -/
structure EpochSegmentEntry where
  segmentIndex : UInt32
  segmentId : Bytes32
  headerHash : Bytes32
  footerHash : Bytes32
  recordCount : UInt32
  openedAtMs : UInt64
  closedAtMs : UInt64
  keyId : ComplianceKeyId
  signerPublicKey : Bytes32
  custodyKeyDigest : Bytes32
  epochKeyCommitment : Bytes32

variable (prim : CryptoPrimitives)

namespace EpochSegmentEntry

def validate (entry : EpochSegmentEntry) : Except SealError Unit := do
  if entry.segmentId = Vector.replicate 32 0 ∨ entry.headerHash = Vector.replicate 32 0
      ∨ entry.footerHash = Vector.replicate 32 0
      ∨ entry.recordCount.toNat > maxSegmentRecords
      ∨ entry.openedAtMs = 0 ∨ entry.closedAtMs < entry.openedAtMs
      ∨ traceEpochContains entry.keyId entry.openedAtMs ≠ .ok true
      ∨ traceEpochContains entry.keyId entry.closedAtMs ≠ .ok true
      ∨ entry.signerPublicKey = Vector.replicate 32 0
      ∨ entry.custodyKeyDigest = Vector.replicate 32 0
      ∨ entry.epochKeyCommitment = Vector.replicate 32 0 then
    throw .corruptManifest

def fromVerified (segmentIndex : UInt32) (segment : VerifiedSegment) :
    Except SealError EpochSegmentEntry := do
  let headerHash ← segment.header.hash prim
  let entry : EpochSegmentEntry := {
    segmentIndex
    segmentId := segment.header.segmentId
    headerHash
    footerHash := segment.footer.hash prim
    recordCount := segment.footer.recordCount
    openedAtMs := segment.header.openedAtMs
    closedAtMs := segment.footer.closedAtMs
    keyId := segment.header.keyId
    signerPublicKey := segment.header.signerPublicKey
    custodyKeyDigest := segment.header.wrappedEpochKey.complianceKeyDigest
    epochKeyCommitment := segment.header.wrappedEpochKey.epochKeyCommitment }
  entry.validate
  return entry

def encode (entry : EpochSegmentEntry) : Bytes :=
  beBytes 4 entry.segmentIndex.toNat ++ entry.segmentId.toList ++ entry.headerHash.toList
    ++ entry.footerHash.toList ++ beBytes 4 entry.recordCount.toNat
    ++ beBytes 8 entry.openedAtMs.toNat ++ beBytes 8 entry.closedAtMs.toNat

end EpochSegmentEntry

/-! ## Manifests -/

/-- Producer-signed terminal marker of one closed trace epoch. -/
structure EpochManifest where
  keyId : ComplianceKeyId
  producerNodeId : Bytes32
  signerPublicKey : Bytes32
  custodyKeyDigest : Bytes32
  epochKeyCommitment : Bytes32
  epochEndMs : UInt64
  totalRecords : UInt64
  segments : List EpochSegmentEntry
  signature : Vector UInt8 64

variable (manifest : EpochManifest)

namespace EpochManifest

/-- The loop over the entries: each at its position, each with an identifier not seen
before, and the sum of their records. -/
def validateEntries (manifest : EpochManifest) :
    ℕ → List Bytes32 → ℕ → List EpochSegmentEntry → Except SealError ℕ
  | _, _, records, [] => .ok records
  | position, ids, records, segment :: rest => do
    segment.validate
    if segment.segmentIndex.toNat ≠ position ∨ segment.keyId ≠ manifest.keyId
        ∨ segment.signerPublicKey ≠ manifest.signerPublicKey
        ∨ segment.custodyKeyDigest ≠ manifest.custodyKeyDigest
        ∨ segment.epochKeyCommitment ≠ manifest.epochKeyCommitment
        ∨ segment.segmentId ∈ ids then
      throw .corruptManifest
    if records + segment.recordCount.toNat ≥ u64Limit then throw .limitExceeded
    manifest.validateEntries (position + 1) (segment.segmentId :: ids)
      (records + segment.recordCount.toNat) rest

def validateStructure (manifest : EpochManifest) :
    Except SealError Unit := do
  let expectedEnd ← (traceEpochEndMs manifest.keyId).mapError fun _ => .corruptManifest
  if (manifest.keyId.purpose ≠ .networkTrace ∧ manifest.keyId.purpose ≠ .identityTrace)
      ∨ manifest.producerNodeId = Vector.replicate 32 0
      ∨ manifest.signerPublicKey = Vector.replicate 32 0
      ∨ manifest.custodyKeyDigest = Vector.replicate 32 0
      ∨ manifest.epochKeyCommitment = Vector.replicate 32 0
      ∨ manifest.epochEndMs.toNat ≠ expectedEnd
      ∨ manifest.segments.length > maxEpochManifestSegments then
    throw .corruptManifest
  parseVerifyingKey prim manifest.signerPublicKey
  let records ← manifest.validateEntries 0 [] 0 manifest.segments
  if records ≠ manifest.totalRecords.toNat then throw .corruptManifest

def encodeUnsigned : Except SealError Bytes := do
  let keyId ← manifest.keyId.encode.mapError fun _ => .corruptManifest
  return manifestMagic ++ [epochManifestVersion] ++ keyId ++ manifest.producerNodeId.toList
    ++ manifest.signerPublicKey.toList ++ manifest.custodyKeyDigest.toList
    ++ manifest.epochKeyCommitment.toList ++ beBytes 8 manifest.epochEndMs.toNat
    ++ beBytes 4 manifest.segments.length ++ beBytes 8 manifest.totalRecords.toNat
    ++ manifest.segments.flatMap EpochSegmentEntry.encode

def signaturePreimage : Except SealError Bytes := do
  let unsigned ← manifest.encodeUnsigned
  return manifestSignatureDomain ++ unsigned

end EpochManifest

/-! ## Checking a trace against its manifest -/

/-- The state of the streaming completeness check. -/
structure EpochManifestVerifier where
  manifest : EpochManifest
  nextIndex : ℕ
  verifiedRecords : ℕ

def EpochManifest.verifier : EpochManifestVerifier := ⟨manifest, 0, 0⟩

namespace EpochManifestVerifier

def verifyNext (verifier : EpochManifestVerifier)
    (segment : VerifiedSegment) : Except SealError EpochManifestVerifier := do
  match verifier.manifest.segments[verifier.nextIndex]? with
  | none => throw .corruptManifest
  | some entry =>
    let headerHash ← segment.header.hash prim
    if segment.header.keyId ≠ verifier.manifest.keyId
        ∨ segment.header.signerPublicKey ≠ verifier.manifest.signerPublicKey
        ∨ segment.header.wrappedEpochKey.complianceKeyDigest ≠ verifier.manifest.custodyKeyDigest
        ∨ segment.header.wrappedEpochKey.epochKeyCommitment
          ≠ verifier.manifest.epochKeyCommitment
        ∨ segment.header.segmentId ≠ entry.segmentId
        ∨ headerHash ≠ entry.headerHash
        ∨ segment.footer.hash prim ≠ entry.footerHash
        ∨ segment.footer.recordCount ≠ entry.recordCount
        ∨ segment.header.openedAtMs ≠ entry.openedAtMs
        ∨ segment.footer.closedAtMs ≠ entry.closedAtMs then
      throw .corruptManifest
    if verifier.verifiedRecords + segment.footer.recordCount.toNat ≥ u64Limit then
      throw .limitExceeded
    return { verifier with
      verifiedRecords := verifier.verifiedRecords + segment.footer.recordCount.toNat
      nextIndex := verifier.nextIndex + 1 }

def finish (verifier : EpochManifestVerifier) : Except SealError Unit := do
  if verifier.nextIndex ≠ verifier.manifest.segments.length
      ∨ verifier.verifiedRecords ≠ verifier.manifest.totalRecords.toNat then
    throw .corruptManifest

/-- Every segment in order, then the completeness check. -/
def verifyAll (prim : CryptoPrimitives) :
    EpochManifestVerifier → List VerifiedSegment → Except SealError Unit
  | verifier, [] => verifier.finish
  | verifier, segment :: rest => do
    let next ← verifier.verifyNext prim segment
    verifyAll prim next rest

end EpochManifestVerifier

/-! ## Budgets of trace stores (`pigeonpost-compliance-seal/src/storage_budget.rs`) -/

def frameFixedBytes : ℕ := 8 + 24 + 16 + 32

/-- A UTC day overlaps at most so many 60-second admission windows. -/
def traceRateWindowsPerUtcDay : ℕ := 24 * 60 + 1

def identityTraceFrameBytes : ℕ := identityTraceRecordLen + frameFixedBytes

def traceLiveKeyBytes : ℕ := 8 + 1 + complianceKeyIdLen + 4 + 32

def traceTerminalReserveBytes : ℕ := maxEpochManifestBytes + segmentFooterLen + 64 * 1024

def minTraceStorageBytes : ℕ :=
  traceTerminalReserveBytes + traceLiveKeyBytes + segmentHeaderLen + identityTraceFrameBytes

def maxTraceStorageBytes : ℕ := 1024 * 1024 * 1024 * 1024 * 1024

/-- Why a plan is refused. The source returns `StorageLimit` for each of them. -/
inductive PlanRefusal where
  | parameters
  | segments
  | overflow
  | ceiling
deriving DecidableEq

/-- The result of a checked operation. -/
def checked (exact : ℕ) : Except PlanRefusal ℕ :=
  if exact < u64Limit then .ok exact else .error .overflow

def planTraceStorageBytes (frameBytes : ℕ) (recordsPerMinute : UInt32) (capacityDays : UInt64)
    (maxRecordsPerSegment : UInt32) : Except PlanRefusal ℕ := do
  if recordsPerMinute = 0 ∨ capacityDays = 0 ∨ maxRecordsPerSegment = 0
      ∨ maxRecordsPerSegment.toNat > maxSegmentRecords then
    throw .parameters
  let recordsPerDay ← checked (recordsPerMinute.toNat * traceRateWindowsPerUtcDay)
  let segmentSize := maxRecordsPerSegment.toNat
  let segmentsPerDay := (← checked (recordsPerDay + (segmentSize - 1))) / segmentSize
  if segmentsPerDay > maxEpochManifestSegments then throw .segments
  let manifestBytes ←
    checked ((← checked (epochManifestEntryLen * segmentsPerDay)) + epochManifestFixedLen)
  let frames ← checked (frameBytes * recordsPerDay)
  let ends ← checked ((segmentHeaderLen + segmentFooterLen) * segmentsPerDay)
  let dailyBytes ← checked ((← checked (ends + frames)) + manifestBytes)
  let history ← checked ((← checked (dailyBytes * capacityDays.toNat)) + traceLiveKeyBytes)
  let required ← checked (history + traceTerminalReserveBytes)
  if required > maxTraceStorageBytes then throw .ceiling
  return max required minTraceStorageBytes

def requiredTraceStorageBytes (frameBytes : ℕ) (recordsPerMinute : UInt32)
    (capacityDays : UInt64) (maxRecordsPerSegment : UInt32) : Except SealError ℕ :=
  (planTraceStorageBytes frameBytes recordsPerMinute capacityDays maxRecordsPerSegment).mapError
    fun _ => .storageLimit

end Pigeonpost
