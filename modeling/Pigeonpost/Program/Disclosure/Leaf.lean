import Pigeonpost.Program.ComplianceFormat
import Mathlib.Data.List.AList

/-! # Leaves of the disclosure ledger (`pigeonpost-compliance/src/ledger.rs`) -/

namespace Pigeonpost

inductive ComplianceError where
  | unauthorized
  | badApproval
  | wrongPurpose
  | invalidRequest
  | expired
  | stateConflict
  | retentionActive
  | legalHoldActive
  | incompleteInventory
  | unknownCopy
  | limitExceeded
  | storage
deriving DecidableEq

def intentVersion : UInt8 := 1

def completionVersion : UInt8 := 1

def intentDomain : Bytes := ascii "pigeonpost/disclosure-intent/v1"

def completionDomain : Bytes := ascii "pigeonpost/disclosure-completion/v1"

def maxDisclosureKeys : ℕ := 64

def zero32 : Bytes32 := Vector.replicate 32 0

/-! ## Reading at a cursor

The cursor is the rest of the bytes behind it. -/

def readFixed32 (rest : Bytes) : Bytes32 × Bytes := (bytes32 (rest.take 32), rest.drop 32)

def readU64 (rest : Bytes) : UInt64 × Bytes := (UInt64.ofNat (readBE (rest.take 8)), rest.drop 8)

def readU32 (rest : Bytes) : UInt32 × Bytes := (UInt32.ofNat (readBE (rest.take 4)), rest.drop 4)

def readByte (rest : Bytes) : UInt8 × Bytes := (rest.getD 0 0, rest.drop 1)

/-! ## Intents -/

/-- Public commitment made before an operation. -/
structure DisclosureIntent where
  requestId : Bytes32
  timestampMs : UInt64
  jurisdiction : Jurisdiction
  purpose : CompliancePurpose
  keyIds : List ComplianceKeyId
  orderCommitment : Bytes32
  requesterCommitment : Bytes32
  selectorCommitment : Bytes32
  approverCommitments : List Bytes32

def keyIdPrecedes (left right : ComplianceKeyId) : Bool :=
  match left.encode, right.encode with
  | .ok left, .ok right => left < right
  | _, _ => false

def strictlySortedKeyIds : List ComplianceKeyId → Bool
  | left :: right :: rest => keyIdPrecedes left right && strictlySortedKeyIds (right :: rest)
  | _ => true

/-- Exactly two approvers, distinct and none of them zero. -/
def validApprovers : List Bytes32 → Bool
  | [first, second] => first != second && first != zero32 && second != zero32
  | _ => false

namespace DisclosureIntent

def isValid (intent : DisclosureIntent) : Bool :=
  intent.timestampMs != 0
    && intent.requestId != zero32
    && intent.orderCommitment != zero32
    && intent.requesterCommitment != zero32
    && intent.selectorCommitment != zero32
    && !intent.keyIds.isEmpty
    && intent.keyIds.length ≤ maxDisclosureKeys
    && validApprovers intent.approverCommitments
    && strictlySortedKeyIds intent.keyIds
    && intent.keyIds.all fun keyId =>
      keyId.validate.isOk && keyId.purpose == intent.purpose
        && keyId.jurisdiction == intent.jurisdiction

/-- The loop over the key identifiers. -/
def encodeKeyIds : List ComplianceKeyId → Except ComplianceError Bytes
  | [] => .ok []
  | keyId :: rest => do
    let encoded ← keyId.encode.mapError fun _ => .invalidRequest
    let others ← encodeKeyIds rest
    return encoded ++ others

def encode (intent : DisclosureIntent) : Except ComplianceError Bytes := do
  if !intent.isValid then throw .invalidRequest
  let keyIds ← encodeKeyIds intent.keyIds
  return intentDomain ++ [intentVersion] ++ intent.requestId.toList
    ++ beBytes 8 intent.timestampMs.toNat
    ++ [intent.jurisdiction.toByte, intent.purpose.toByte, UInt8.ofNat intent.keyIds.length]
    ++ keyIds
    ++ intent.orderCommitment.toList ++ intent.requesterCommitment.toList
    ++ intent.selectorCommitment.toList
    ++ [UInt8.ofNat intent.approverCommitments.length]
    ++ intent.approverCommitments.flatMap Vector.toList

def decodeKeyIds : ℕ → Bytes → Except ComplianceError (List ComplianceKeyId × Bytes)
  | 0, rest => .ok ([], rest)
  | count + 1, rest => do
    let keyId ← (ComplianceKeyId.decode (rest.take complianceKeyIdLen)).mapError
      fun _ => .invalidRequest
    let (keyIds, rest) ← decodeKeyIds count (rest.drop complianceKeyIdLen)
    return (keyId :: keyIds, rest)

/-- The length of an intent up to its key identifiers. -/
def fixedPrefix : ℕ := intentDomain.length + 1 + 32 + 8 + 3

/-- Reads one exact encoding. -/
def decode (bytes : Bytes) : Except ComplianceError DisclosureIntent := do
  if bytes.length < fixedPrefix + 96 + 1 + 64 ∨ !intentDomain.isPrefixOf bytes
      ∨ bytes.getD intentDomain.length 0 ≠ intentVersion then
    throw .invalidRequest
  let rest := bytes.drop (intentDomain.length + 1)
  let (requestId, rest) := readFixed32 rest
  let (timestampMs, rest) := readU64 rest
  let (jurisdiction, rest) := readByte rest
  let jurisdiction ← (Jurisdiction.ofByte jurisdiction).mapError fun _ => .invalidRequest
  let (purpose, rest) := readByte rest
  let purpose ← (CompliancePurpose.ofByte purpose).mapError fun _ => .invalidRequest
  let (keyCount, rest) := readByte rest
  if keyCount.toNat = 0 ∨ keyCount.toNat > maxDisclosureKeys then throw .invalidRequest
  if bytes.length ≠ fixedPrefix + keyCount.toNat * complianceKeyIdLen + (96 + 1 + 64) then
    throw .invalidRequest
  let (keyIds, rest) ← decodeKeyIds keyCount.toNat rest
  let (orderCommitment, rest) := readFixed32 rest
  let (requesterCommitment, rest) := readFixed32 rest
  let (selectorCommitment, rest) := readFixed32 rest
  let (approvers, rest) := readByte rest
  if approvers ≠ 2 then throw .invalidRequest
  let (first, rest) := readFixed32 rest
  let (second, _) := readFixed32 rest
  let intent : DisclosureIntent := {
    requestId, timestampMs, jurisdiction, purpose, keyIds
    orderCommitment, requesterCommitment, selectorCommitment
    approverCommitments := [first, second] }
  if !strictlySortedKeyIds intent.keyIds then throw .invalidRequest
  let _ ← intent.encode
  return intent

end DisclosureIntent

/-! ## Completions -/

inductive CompletionStatus where
  | succeeded
  | failed
deriving DecidableEq

def CompletionStatus.toByte : CompletionStatus → UInt8
  | .succeeded => 1
  | .failed => 2

/-- Public commitment made after an operation. -/
structure DisclosureCompletion where
  requestId : Bytes32
  timestampMs : UInt64
  status : CompletionStatus
  recordCount : UInt32
  resultCommitment : Bytes32

namespace DisclosureCompletion

def encode (completion : DisclosureCompletion) : Except ComplianceError Bytes := do
  if completion.timestampMs = 0 ∨ completion.requestId = zero32
      ∨ completion.resultCommitment = zero32 then
    throw .invalidRequest
  if completion.status = .failed ∧ completion.recordCount ≠ 0 then throw .invalidRequest
  return completionDomain ++ [completionVersion] ++ completion.requestId.toList
    ++ beBytes 8 completion.timestampMs.toNat ++ [completion.status.toByte]
    ++ beBytes 4 completion.recordCount.toNat ++ completion.resultCommitment.toList

def statusOfByte (value : UInt8) : Except ComplianceError CompletionStatus :=
  if value = 1 then .ok .succeeded
  else if value = 2 then .ok .failed
  else .error .invalidRequest

def decode (bytes : Bytes) : Except ComplianceError DisclosureCompletion := do
  if bytes.length ≠ completionDomain.length + 1 + 32 + 8 + 1 + 4 + 32
      ∨ !completionDomain.isPrefixOf bytes
      ∨ bytes.getD completionDomain.length 0 ≠ completionVersion then
    throw .invalidRequest
  let rest := bytes.drop (completionDomain.length + 1)
  let (requestId, rest) := readFixed32 rest
  let (timestampMs, rest) := readU64 rest
  let (status, rest) := readByte rest
  let status ← statusOfByte status
  let (recordCount, rest) := readU32 rest
  let (resultCommitment, _) := readFixed32 rest
  let completion : DisclosureCompletion :=
    { requestId, timestampMs, status, recordCount, resultCommitment }
  let _ ← completion.encode
  return completion

end DisclosureCompletion

/-! ## Leaves -/

inductive DisclosureLeaf where
  | intent (value : DisclosureIntent)
  | completion (value : DisclosureCompletion)

namespace DisclosureLeaf

def encode : DisclosureLeaf → Except ComplianceError Bytes
  | .intent value => value.encode
  | .completion value => value.encode

def decode (bytes : Bytes) : Except ComplianceError DisclosureLeaf :=
  if intentDomain.isPrefixOf bytes then (DisclosureIntent.decode bytes).map .intent
  else if completionDomain.isPrefixOf bytes then
    (DisclosureCompletion.decode bytes).map .completion
  else .error .invalidRequest

end DisclosureLeaf

end Pigeonpost
