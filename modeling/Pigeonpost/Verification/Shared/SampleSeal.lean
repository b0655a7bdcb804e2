import Pigeonpost.Program.Seal.Manifest

/-! # Sealing primitives for concrete runs -/

namespace Pigeonpost

open Vector

def checksum (bytes : Bytes) : ℕ :=
  bytes.foldl (fun acc b => (acc * 31 + b.toNat) % 251) 7

/-- The checksum, never zero, in the place of SHA-256. -/
def sampleSha256 (bytes : Bytes) : Bytes32 :=
  replicate 32 (UInt8.ofNat (checksum bytes + 1))

/-- The checksum of key and message in the place of a signature. -/
def sampleSign (key : Bytes32) (message : Bytes) : Vector UInt8 64 :=
  replicate 64 (UInt8.ofNat (checksum (key.toList ++ message)))

def samplePrimitives : CryptoPrimitives where
  sha256 := sampleSha256
  verifyingKeyFromBytes _ := true
  isWeak key := decide (key = replicate 32 1)
  verifyStrict key message signature := signature[0] == (sampleSign key message)[0]

def sampleSigner : SegmentSigner where
  verifyingKey := replicate 32 5
  sign := sampleSign (replicate 32 5)

/-! ## A trace of two segments -/

def sampleTraceKeyId : ComplianceKeyId where
  version := 1
  purpose := .networkTrace
  jurisdiction := .test
  authority := replicate 32 7
  epochStartMs := 86400000
  generation := 0

def sampleSegmentHeader (id : UInt8) : SegmentHeader where
  segmentId := replicate 32 id
  keyId := sampleTraceKeyId
  openedAtMs := 86400001
  maxRecords := 4
  signerPublicKey := sampleSigner.verifyingKey
  wrappedEpochKey := {
    version := 1
    keyId := sampleTraceKeyId
    complianceKeyDigest := replicate 32 2
    epochKeyCommitment := replicate 32 3
    ephemeralPublicKey := replicate 32 4
    nonce := replicate 24 0
    ciphertext := replicate 48 0 }

def sampleFrames : ℕ → Bytes32 → List UInt8 → List SealedFrame
  | _, _, [] => []
  | sequence, previous, content :: rest =>
    let ciphertext := List.replicate (traceRecordLen + 16) content
    let chainHash := frameChainHash samplePrimitives (UInt64.ofNat sequence) previous
      (replicate 24 content) ciphertext
    ⟨UInt64.ofNat sequence, replicate 24 content, ciphertext, chainHash⟩
      :: sampleFrames (sequence + 1) chainHash rest

def sampleHeaderHash (id : UInt8) : Bytes32 :=
  match (sampleSegmentHeader id).hash samplePrimitives with
  | .ok hash => hash
  | .error _ => replicate 32 0

/-- The segment with these frames, closed and signed. -/
def sampleSegment (id : UInt8) (contents : List UInt8) : VerifiedSegment :=
  let frames := sampleFrames 0 (sampleHeaderHash id) contents
  let hashes := frames.map SealedFrame.chainHash
  let first := hashes.headD (replicate 32 0)
  let final := hashes.getLastD (sampleHeaderHash id)
  let count := UInt32.ofNat contents.length
  { header := sampleSegmentHeader id
    frames := frames
    footer := {
      recordCount := count
      firstRecordHash := first
      finalChainHash := final
      closedAtMs := 86400009
      signature := sampleSigner.sign
        (footerSignaturePreimage (sampleHeaderHash id) count first final 86400009) } }

def VerifiedSegment.sampleBytes (segment : VerifiedSegment) : Bytes :=
  match segment.header.encode samplePrimitives with
  | .error _ => []
  | .ok header =>
    header ++ segment.frames.flatMap (fun frame =>
      beBytes 8 frame.sequence.toNat ++ frame.nonce.toList ++ frame.ciphertext
        ++ frame.chainHash.toList) ++ segment.footer.encode

def sampleTrace : List VerifiedSegment := [sampleSegment 11 [1, 2], sampleSegment 12 [3, 4]]

/-- The entries of the segments, or none where one is refused. -/
def sampleEntries : List EpochSegmentEntry :=
  match (sampleTrace.zipIdx.mapM fun segment => EpochSegmentEntry.fromVerified samplePrimitives
    (UInt32.ofNat segment.2) segment.1) with
  | .ok entries => entries
  | .error _ => []

def sampleUnsignedManifest : EpochManifest where
  keyId := sampleTraceKeyId
  producerNodeId := replicate 32 9
  signerPublicKey := sampleSigner.verifyingKey
  custodyKeyDigest := replicate 32 2
  epochKeyCommitment := replicate 32 3
  epochEndMs := 172800000
  totalRecords := 4
  segments := sampleEntries
  signature := replicate 64 0

def sampleManifest : EpochManifest :=
  match sampleUnsignedManifest.signaturePreimage with
  | .ok preimage => { sampleUnsignedManifest with signature := sampleSigner.sign preimage }
  | .error _ => sampleUnsignedManifest

end Pigeonpost
