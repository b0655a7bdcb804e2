import Pigeonpost.Program.ComplianceFormat

/-! # Trace segments (`pigeonpost-compliance-seal/src/{key,segment}.rs`)

Segment files as bytes: a header, a chain of encrypted frames and a signed footer. -/

namespace Pigeonpost

inductive IoErrorKind where
  | notFound
  | other
deriving DecidableEq

inductive SealError where
  | io (kind : IoErrorKind)
  | format
  | invalidRecord
  | wrongPurpose
  | invalidKey
  | crypto
  | segmentFull
  | corruptSegment
  | corruptManifest
  | badSignature
  | alreadyExists
  | limitExceeded
  | storageLimit
deriving DecidableEq

def fieldAt (bytes : Bytes) (start width : ℕ) : Bytes := (bytes.drop start).take width

/-! ## Wrapped epoch keys -/

def traceKeyWrapVersion : UInt8 := 1

def wrappedEpochKeyLen : ℕ := 216

def wrappedKeyCiphertextLen : ℕ := 48

structure WrappedEpochKey where
  version : UInt8
  keyId : ComplianceKeyId
  complianceKeyDigest : Bytes32
  epochKeyCommitment : Bytes32
  ephemeralPublicKey : Bytes32
  nonce : Vector UInt8 24
  ciphertext : Vector UInt8 wrappedKeyCiphertextLen
deriving DecidableEq

def validateTraceKeyId (keyId : ComplianceKeyId) : Except SealError Unit := do
  keyId.validate.mapError fun _ => .format
  match keyId.purpose with
  | .networkTrace | .identityTrace => return ()
  | .attribution => throw .wrongPurpose

namespace WrappedEpochKey

def encode (wrapped : WrappedEpochKey) : Except SealError Bytes := do
  if wrapped.version ≠ traceKeyWrapVersion then throw .format
  validateTraceKeyId wrapped.keyId
  let keyId ← wrapped.keyId.encode.mapError fun _ => .format
  return [wrapped.version] ++ keyId ++ wrapped.complianceKeyDigest.toList
    ++ wrapped.epochKeyCommitment.toList ++ wrapped.ephemeralPublicKey.toList
    ++ wrapped.nonce.toList ++ wrapped.ciphertext.toList

def decode (bytes : Bytes) : Except SealError WrappedEpochKey := do
  if bytes.length ≠ wrappedEpochKeyLen ∨ bytes.getD 0 0 ≠ traceKeyWrapVersion then throw .format
  let keyId ← (ComplianceKeyId.decode (fieldAt bytes 1 complianceKeyIdLen)).mapError
    fun _ => .format
  validateTraceKeyId keyId
  let complianceKeyDigest := bytes32 (fieldAt bytes 48 32)
  let epochKeyCommitment := bytes32 (fieldAt bytes 80 32)
  let ephemeralPublicKey := bytes32 (fieldAt bytes 112 32)
  if complianceKeyDigest = Vector.replicate 32 0 ∨ epochKeyCommitment = Vector.replicate 32 0
      ∨ ephemeralPublicKey = Vector.replicate 32 0 then
    throw .invalidKey
  return {
    version := traceKeyWrapVersion
    keyId, complianceKeyDigest, epochKeyCommitment, ephemeralPublicKey
    nonce := copyArray 24 (fieldAt bytes 144 24)
    ciphertext := copyArray wrappedKeyCiphertextLen (fieldAt bytes 168 48) }

end WrappedEpochKey

/-! ## Headers -/

def headerMagic : Bytes := ascii "PPTRACE" ++ [0]

def footerMagic : Bytes := ascii "PPEND" ++ [0, 0, 0]

def segmentVersion : UInt8 := 1

def segmentHeaderLen : ℕ := 348

def segmentFooterLen : ℕ := 149

def maxSegmentRecords : ℕ := 10000

def maxSegmentBytes : ℕ := 16 * 1024 * 1024

def traceRecordLen : ℕ := 195

def identityTraceRecordLen : ℕ := 205

def frameChainDomain : Bytes := ascii "pigeonpost/trace-frame-chain/v1"

def footerSignatureDomain : Bytes := ascii "pigeonpost/trace-segment-footer/v1"

def plaintextLen : CompliancePurpose → Except SealError ℕ
  | .networkTrace => .ok traceRecordLen
  | .identityTrace => .ok identityTraceRecordLen
  | .attribution => .error .wrongPurpose

def frameLen (purpose : CompliancePurpose) : Except SealError ℕ := do
  let plaintext ← plaintextLen purpose
  return 8 + 24 + plaintext + 16 + 32

variable (prim : CryptoPrimitives)

def parseVerifyingKey (bytes : Bytes32) : Except SealError Unit := do
  if !prim.verifyingKeyFromBytes bytes then throw .invalidKey
  if prim.isWeak bytes then throw .invalidKey

def timestampInEpoch (timestampMs : UInt64) (keyId : ComplianceKeyId) : Bool :=
  match traceEpochContains keyId timestampMs with
  | .ok inside => inside
  | .error _ => false

structure SegmentHeader where
  segmentId : Bytes32
  keyId : ComplianceKeyId
  openedAtMs : UInt64
  maxRecords : UInt32
  signerPublicKey : Bytes32
  wrappedEpochKey : WrappedEpochKey
deriving DecidableEq

def validateHeader (header : SegmentHeader) : Except SealError Unit := do
  if header.segmentId = Vector.replicate 32 0 ∨ header.openedAtMs = 0
      ∨ !timestampInEpoch header.openedAtMs header.keyId
      ∨ header.maxRecords = 0 ∨ header.maxRecords.toNat > maxSegmentRecords
      ∨ header.signerPublicKey = Vector.replicate 32 0
      ∨ header.wrappedEpochKey.keyId ≠ header.keyId then
    throw .corruptSegment
  let _ ← plaintextLen header.keyId.purpose
  parseVerifyingKey prim header.signerPublicKey

namespace SegmentHeader

def encode (prim : CryptoPrimitives) (header : SegmentHeader) : Except SealError Bytes := do
  validateHeader prim header
  let keyId ← header.keyId.encode.mapError fun _ => .format
  let wrapped ← header.wrappedEpochKey.encode
  return headerMagic ++ [segmentVersion] ++ header.segmentId.toList ++ keyId
    ++ beBytes 8 header.openedAtMs.toNat ++ beBytes 4 header.maxRecords.toNat
    ++ header.signerPublicKey.toList ++ wrapped

/-- The source unwraps the encoding: it hashes only headers that it has validated. -/
def hash (header : SegmentHeader) : Except SealError Bytes32 :=
  (header.encode prim).map prim.sha256

def decode (prim : CryptoPrimitives) (bytes : Bytes) : Except SealError SegmentHeader := do
  if bytes.length ≠ segmentHeaderLen ∨ bytes.take 8 ≠ headerMagic
      ∨ bytes.getD 8 0 ≠ segmentVersion then
    throw .corruptSegment
  let keyId ← (ComplianceKeyId.decode (fieldAt bytes 41 complianceKeyIdLen)).mapError
    fun _ => .corruptSegment
  let wrappedEpochKey ← WrappedEpochKey.decode (fieldAt bytes 132 wrappedEpochKeyLen)
  let header : SegmentHeader := {
    segmentId := bytes32 (fieldAt bytes 9 32)
    keyId
    openedAtMs := UInt64.ofNat (readBE (fieldAt bytes 88 8))
    maxRecords := UInt32.ofNat (readBE (fieldAt bytes 96 4))
    signerPublicKey := bytes32 (fieldAt bytes 100 32)
    wrappedEpochKey }
  validateHeader prim header
  return header

end SegmentHeader

/-! ## Frames -/

structure SealedFrame where
  sequence : UInt64
  nonce : Vector UInt8 24
  ciphertext : Bytes
  chainHash : Bytes32
deriving DecidableEq

def decodeFrame (bytes : Bytes) (purpose : CompliancePurpose) : Except SealError SealedFrame := do
  let plaintext ← plaintextLen purpose
  let ciphertextLen := plaintext + 16
  if bytes.length ≠ 8 + 24 + ciphertextLen + 32 then throw .corruptSegment
  return {
    sequence := UInt64.ofNat (readBE (bytes.take 8))
    nonce := copyArray 24 (fieldAt bytes 8 24)
    ciphertext := fieldAt bytes 32 ciphertextLen
    chainHash := bytes32 (bytes.drop (32 + ciphertextLen)) }

def frameChainPreimage (sequence : UInt64) (previousHash : Bytes32) (nonce : Vector UInt8 24)
    (ciphertext : Bytes) : Bytes :=
  frameChainDomain ++ beBytes 8 sequence.toNat ++ previousHash.toList ++ nonce.toList ++ ciphertext

def frameChainHash (sequence : UInt64) (previousHash : Bytes32)
    (nonce : Vector UInt8 24) (ciphertext : Bytes) : Bytes32 :=
  prim.sha256 (frameChainPreimage sequence previousHash nonce ciphertext)

def verifyFrame (frame : SealedFrame) (expectedSequence : ℕ)
    (previousHash : Bytes32) : Except SealError Unit := do
  if frame.sequence.toNat ≠ expectedSequence
      ∨ frame.chainHash ≠ frameChainHash prim frame.sequence previousHash frame.nonce
        frame.ciphertext then
    throw .corruptSegment

/-! ## Footers -/

structure SegmentFooter where
  recordCount : UInt32
  firstRecordHash : Bytes32
  finalChainHash : Bytes32
  closedAtMs : UInt64
  signature : Vector UInt8 64
deriving DecidableEq

namespace SegmentFooter

def encode (footer : SegmentFooter) : Bytes :=
  footerMagic ++ [segmentVersion] ++ beBytes 4 footer.recordCount.toNat
    ++ footer.firstRecordHash.toList ++ footer.finalChainHash.toList
    ++ beBytes 8 footer.closedAtMs.toNat ++ footer.signature.toList

def hash (footer : SegmentFooter) : Bytes32 := prim.sha256 footer.encode

def decode (bytes : Bytes) : Except SealError SegmentFooter := do
  if bytes.length ≠ segmentFooterLen ∨ bytes.take 8 ≠ footerMagic
      ∨ bytes.getD 8 0 ≠ segmentVersion then
    throw .corruptSegment
  return {
    recordCount := UInt32.ofNat (readBE (fieldAt bytes 9 4))
    firstRecordHash := bytes32 (fieldAt bytes 13 32)
    finalChainHash := bytes32 (fieldAt bytes 45 32)
    closedAtMs := UInt64.ofNat (readBE (fieldAt bytes 77 8))
    signature := copyArray 64 (fieldAt bytes 85 64) }

end SegmentFooter

def footerSignaturePreimage (headerHash : Bytes32) (recordCount : UInt32)
    (firstRecordHash finalChainHash : Bytes32) (closedAtMs : UInt64) : Bytes :=
  footerSignatureDomain ++ headerHash.toList ++ beBytes 4 recordCount.toNat
    ++ firstRecordHash.toList ++ finalChainHash.toList ++ beBytes 8 closedAtMs.toNat

/-! ## Complete segments -/

/-- A complete segment whose frame chain and signature have been verified. -/
structure VerifiedSegment where
  header : SegmentHeader
  frames : List SealedFrame
  footer : SegmentFooter
deriving DecidableEq

/-- The loop over the frames: the frames read and the last chain hash. -/
def verifyFrames (prim : CryptoPrimitives) (purpose : CompliancePurpose) (width : ℕ) :
    ℕ → ℕ → Bytes32 → Bytes → Except SealError (List SealedFrame × Bytes32)
  | 0, _, previousHash, _ => .ok ([], previousHash)
  | count + 1, sequence, previousHash, bytes => do
    let frame ← decodeFrame (bytes.take width) purpose
    verifyFrame prim frame sequence previousHash
    let (frames, last) ← verifyFrames prim purpose width count (sequence + 1) frame.chainHash
      (bytes.drop width)
    return (frame :: frames, last)

/-- The checked additions of the source do not overflow: the count is bounded before. -/
def verifySegmentBytes (bytes : Bytes) :
    Except SealError VerifiedSegment := do
  if bytes.length < segmentHeaderLen + segmentFooterLen ∨ bytes.length > maxSegmentBytes then
    throw .corruptSegment
  let header ← SegmentHeader.decode prim (bytes.take segmentHeaderLen)
  let footer ← SegmentFooter.decode (bytes.drop (bytes.length - segmentFooterLen))
  if footer.recordCount > header.maxRecords ∨ footer.recordCount.toNat > maxSegmentRecords then
    throw .limitExceeded
  let width ← frameLen header.keyId.purpose
  if bytes.length ≠ segmentHeaderLen + footer.recordCount.toNat * width + segmentFooterLen
      ∨ footer.closedAtMs < header.openedAtMs then
    throw .corruptSegment
  let headerHash ← header.hash prim
  let (frames, previousHash) ← verifyFrames prim header.keyId.purpose width
    footer.recordCount.toNat 0 headerHash (bytes.drop segmentHeaderLen)
  let first := match frames.head? with
    | some frame => frame.chainHash
    | none => Vector.replicate 32 0
  if first ≠ footer.firstRecordHash ∨ previousHash ≠ footer.finalChainHash then
    throw .corruptSegment
  parseVerifyingKey prim header.signerPublicKey
  let preimage := footerSignaturePreimage headerHash footer.recordCount footer.firstRecordHash
    footer.finalChainHash footer.closedAtMs
  if !prim.verifyStrict header.signerPublicKey preimage footer.signature then throw .badSignature
  return { header, frames, footer }

end Pigeonpost
