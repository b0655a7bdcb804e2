import Pigeonpost.Library.Json
import Pigeonpost.Program.Address
import Pigeonpost.Program.Entry

/-! # Agent and rotation records (`pigeonpost-core/src/record.rs`) -/

namespace Pigeonpost

/-! ## Constants -/

def sigDomainRecordV1 : Bytes := ascii "pigeonpost/agent-record/v1"

def sigDomainRecordV2 : Bytes := ascii "pigeonpost/agent-record/v2"

def sigDomainRotationOutgoing : Bytes := ascii "pigeonpost/rotation/v2/outgoing"

def sigDomainRotationIncoming : Bytes := ascii "pigeonpost/rotation/v2/incoming"

def rotationRecordVersion : UInt8 := 2

def rotationGraceSecs : ℕ := 90 * 24 * 60 * 60

def rotationClockSkewSecs : ℕ := 5 * 60

def maxAgentRecordLofts : ℕ := 8

def maxAgentRecordLoftUrlBytes : ℕ := 2048

def maxAgentRecordLoftBytes : ℕ := maxAgentRecordLofts * maxAgentRecordLoftUrlBytes

def agentRecordVersion : UInt8 := 2

def legacyAgentRecordVersion : UInt8 := 1

/-! ## Data -/

abbrev Bytes64 := Vector UInt8 64

def attributionRequirementVersion : UInt8 := 1

/-- The custody scope a recipient selects (`pigeonpost-core/src/policy.rs`). -/
structure AttributionRequirement where
  version : UInt8
  jurisdiction : Jurisdiction
  authority : Bytes32
deriving DecidableEq

def AttributionRequirement.validate (requirement : AttributionRequirement) :
    Except CoreError Unit := do
  if requirement.version ≠ attributionRequirementVersion then
    throw (.malformedEnvelope "unsupported attribution requirement version")
  if requirement.authority = Vector.replicate 32 0 then
    throw (.malformedEnvelope "attribution authority must not be all zeroes")

/-- How a signed payload writes the optional requirement. -/
def requirementPayload : Option AttributionRequirement → Bytes
  | some requirement =>
    [1, requirement.version, requirement.jurisdiction.toByte] ++ requirement.authority.toList
  | none => [0]

structure AgentRecord where
  version : UInt8
  pubkey : Bytes32
  successorHash : Bytes32
  seq : UInt64
  lofts : List Bytes
  powMin : UInt32
  attributionRequirement : Option AttributionRequirement
  signature : Bytes64
deriving DecidableEq

structure RotationRecord where
  version : UInt8
  fromPubkey : Bytes32
  toPubkey : Bytes32
  nextSuccessorHash : Bytes32
  seq : UInt64
  activatedAt : UInt64
  graceUntil : UInt64
  outgoingSignature : Bytes64
  incomingSignature : Bytes64
deriving DecidableEq

/-! ## Keys -/

section Keys

variable (prim : Primitives)

/-- `keys::verifying_key_from_bytes`. -/
def verifyingKey (pubkey : Bytes32) : Except CoreError Unit :=
  if prim.verifyingKeyFromBytes pubkey.toList then .ok () else .error .invalidKey

/-- `keys::verify`. -/
def verifySignature (pubkey : Bytes32) (payload : Bytes) (signature : Bytes64) :
    Except CoreError Unit :=
  if prim.verify pubkey.toList payload signature.toList then .ok () else .error .badSignature

end Keys

/-! ## Agent records -/

section Lofts

variable (prim : Primitives)

def numericLoopback : UrlHost → Bool
  | .ipv4 address => address.isLoopback
  | .ipv6 address => address.isLoopback
  | .domain _ => false

def localhostName : UrlHost → Bool
  | .domain name => isLocalhostName name
  | _ => false

/-- The checks `validate_loft_list` makes of one parsed origin. -/
def validLoftOrigin (url : ParsedUrl) : Bool :=
  match url.host with
  | none => false
  | some host =>
    url.username.isEmpty && url.password.isNone && url.query.isNone && url.fragment.isNone
      && (url.path.isEmpty || url.path == ascii "/") && url.port != some 0
      && !localhostName host
      && (url.scheme == ascii "https"
        || (url.scheme == ascii "http" && numericLoopback host))

def validateLoftsFrom (total : ℕ) : List Bytes → Except CoreError Unit
  | [] => .ok ()
  | loft :: lofts => do
    if loft.isEmpty ∨ loft.length > maxAgentRecordLoftUrlBytes then throw .tooLarge
    if total + loft.length > maxAgentRecordLoftBytes then throw .tooLarge
    let url ← okOr (prim.parseUrl loft)
      (.malformedEnvelope "agent record loft origin is invalid")
    if !validLoftOrigin url then
      throw (.malformedEnvelope "agent record loft origin is invalid")
    validateLoftsFrom (total + loft.length) lofts

def validateLoftList (lofts : List Bytes) : Except CoreError Unit := do
  if lofts.length > maxAgentRecordLofts then throw .tooLarge
  validateLoftsFrom prim 0 lofts

end Lofts

def recordPayloadV1 (record : AgentRecord) : Bytes :=
  sigDomainRecordV1 ++ record.pubkey.toList ++ record.successorHash.toList
    ++ leBytes 8 record.seq.toNat ++ leBytes 4 record.lofts.length
    ++ record.lofts.flatMap (fun loft => leBytes 4 loft.length ++ loft)
    ++ leBytes 4 record.powMin.toNat

def recordPayloadV2 (record : AgentRecord) : Bytes :=
  sigDomainRecordV2 ++ [agentRecordVersion] ++ record.pubkey.toList
    ++ record.successorHash.toList
    ++ beBytes 8 record.seq.toNat ++ beBytes 4 record.lofts.length
    ++ record.lofts.flatMap (fun loft => beBytes 4 loft.length ++ loft)
    ++ beBytes 4 record.powMin.toNat
    ++ requirementPayload record.attributionRequirement

namespace AgentRecord

def payload (record : AgentRecord) : Except CoreError Bytes :=
  if record.version = legacyAgentRecordVersion then
    if record.attributionRequirement.isNone then .ok (recordPayloadV1 record)
    else .error (.malformedEnvelope "legacy agent record carries unsigned attribution scope")
  else if record.version = agentRecordVersion then
    match record.attributionRequirement with
    | some requirement => do
      requirement.validate
      return recordPayloadV2 record
    | none => .ok (recordPayloadV2 record)
  else .error (.malformedEnvelope "unsupported agent record version")

def verify (H : Type) [Sha256 H] [HashBytes H] (prim : Primitives) (record : AgentRecord)
    (address : Address) : Except CoreError Unit := do
  verifyingKey prim record.pubkey
  if !address.matchesKey H record.pubkey then
    throw (.malformedAddress "record is for a different address")
  validateLoftList prim record.lofts
  let payload ← record.payload
  verifySignature prim record.pubkey payload record.signature

end AgentRecord

/-! ## Rotation records -/

variable (record : RotationRecord)

def rotationBody : Bytes :=
  [record.version] ++ record.fromPubkey.toList ++ record.toPubkey.toList
    ++ record.nextSuccessorHash.toList ++ leBytes 8 record.seq.toNat
    ++ leBytes 8 record.activatedAt.toNat ++ leBytes 8 record.graceUntil.toNat

def rotationSigningPayload (domain body : Bytes) : Bytes := domain ++ body

namespace RotationRecord

variable (H : Type) [Sha256 H] [HashBytes H] (prim : Primitives)

/-- `verify` against a pinned commitment, the last sequence and the observer's clock. The
verified transition it returns is not used by the store. -/
def verify (pinned : Bytes32) (lastSeq : UInt64) (observedAt : ℕ) :
    Except CoreError Unit := do
  if record.version ≠ rotationRecordVersion ∨ record.activatedAt = 0
      ∨ record.graceUntil.toNat ≠ record.activatedAt.toNat + rotationGraceSecs then
    throw (.malformedEnvelope "invalid rotation record")
  verifyingKey prim record.fromPubkey
  verifyingKey prim record.toPubkey
  let body := rotationBody record
  verifySignature prim record.fromPubkey
    (rotationSigningPayload sigDomainRotationOutgoing body) record.outgoingSignature
  verifySignature prim record.toPubkey
    (rotationSigningPayload sigDomainRotationIncoming body) record.incomingSignature
  if Address.keyDigest H record.toPubkey ≠ pinned then throw .successorMismatch
  if lastSeq.toNat + 1 ≠ record.seq.toNat then throw .staleSequence
  if observedAt + rotationClockSkewSecs < record.activatedAt.toNat then throw .staleTimestamp

def verifySourceAddress (address : Address) :
    Except CoreError Unit := do
  verifyingKey prim record.fromPubkey
  if !address.matchesKey H record.fromPubkey then
    throw (.malformedAddress "rotation is for a different address")

def targetAddress : Except CoreError Address := do
  verifyingKey prim record.toPubkey
  return Address.fromPubkey H record.toPubkey

/-- The record as `serde_json` writes it. -/
def toJson : Bytes :=
  Json.object
    [Json.member "version" (Json.number record.version.toNat),
      Json.member "from_pubkey" (Json.byteArray record.fromPubkey.toList),
      Json.member "to_pubkey" (Json.byteArray record.toPubkey.toList),
      Json.member "next_successor_hash" (Json.byteArray record.nextSuccessorHash.toList),
      Json.member "seq" (Json.number record.seq.toNat),
      Json.member "activated_at" (Json.number record.activatedAt.toNat),
      Json.member "grace_until" (Json.number record.graceUntil.toNat),
      Json.member "outgoing_signature" (Json.byteArray record.outgoingSignature.toList),
      Json.member "incoming_signature" (Json.byteArray record.incomingSignature.toList)]

end RotationRecord

/-! ## Fetch credentials (`pigeonpost-core/src/fetch_auth.rs`) -/

def sigDomainFetch : Bytes := ascii "pigeonpost/fetch-auth/v2"

def maxLoftOriginBytes : ℕ := 2048

def clockSkewMinutes : ℕ := 5

/-- The proof of a mailbox owner for one loft, minute and cursor. -/
structure FetchAuth where
  recipient : Bytes32
  loftPubkey : Bytes32
  loftOrigin : Bytes
  minute : UInt64
  cursor : UInt64
  signature : Bytes64

section Origin

variable (prim : Primitives) (urlText : Bytes → Bytes)

/-- The exact origin a credential covers. `urlText` is the text of a parsed URL. -/
def validateLoftOrigin (origin : Bytes) : Except CoreError Unit := do
  if origin.isEmpty ∨ origin.length > maxLoftOriginBytes then
    throw (.malformedEnvelope "invalid loft origin")
  let parsed ← okOr (prim.parseUrl origin) (.malformedEnvelope "invalid loft origin")
  if !validLoftOrigin parsed then throw (.malformedEnvelope "invalid loft origin")
  if trimEndMatches 0x2f (urlText origin) ≠ origin then
    throw (.malformedEnvelope "noncanonical loft origin")

namespace FetchAuth

def payload (auth : FetchAuth) : Bytes :=
  sigDomainFetch ++ auth.recipient.toList ++ auth.loftPubkey.toList
    ++ leBytes 2 auth.loftOrigin.length ++ auth.loftOrigin ++ leBytes 8 auth.minute.toNat
    ++ leBytes 8 auth.cursor.toNat

/-- The mailbox owner, against the loft's key, origin and clock. -/
def verify (auth : FetchAuth) (loftPubkey : Bytes32) (loftOrigin : Bytes) (nowMinute : ℕ) :
    Except CoreError Bytes32 := do
  validateLoftOrigin prim urlText loftOrigin
  validateLoftOrigin prim urlText auth.loftOrigin
  if auth.loftPubkey ≠ loftPubkey ∨ auth.loftOrigin ≠ loftOrigin then throw .badSignature
  if (auth.minute.toNat - nowMinute) + (nowMinute - auth.minute.toNat) > clockSkewMinutes then
    throw .staleTimestamp
  verifyingKey prim auth.recipient
  verifySignature prim auth.recipient auth.payload auth.signature
  return auth.recipient

end FetchAuth

end Origin

/-! ## Recipient policies (`pigeonpost-core/src/policy.rs`) -/

def sigDomainPolicyV1 : Bytes := ascii "pigeonpost/recipient-policy/v1"

def sigDomainPolicyV2 : Bytes := ascii "pigeonpost/recipient-policy/v2"

def sigDomainPolicyV3 : Bytes := ascii "pigeonpost/recipient-policy/v3"

def recipientPolicyVersion : UInt8 := 3

def legacyRecipientPolicyVersion : UInt8 := 1

def previousRecipientPolicyVersion : UInt8 := 2

def maxTokens : ℕ := 64

structure RecipientPolicy where
  version : UInt8
  pubkey : Bytes32
  powMin : UInt32
  tokenRequired : Bool
  tokenHashes : List Bytes32
  attributionRequired : Bool
  attributionRequirement : Option AttributionRequirement
  seq : UInt64
  signature : Bytes64

namespace RecipientPolicy

variable (policy : RecipientPolicy)

def payloadV1 : Bytes :=
  sigDomainPolicyV1 ++ policy.pubkey.toList ++ leBytes 4 policy.powMin.toNat
    ++ [boolByte policy.tokenRequired] ++ leBytes 4 policy.tokenHashes.length
    ++ policy.tokenHashes.flatMap Vector.toList ++ leBytes 8 policy.seq.toNat
    ++ [boolByte policy.attributionRequired]

def payloadV2 : Bytes :=
  sigDomainPolicyV2 ++ [previousRecipientPolicyVersion] ++ policy.pubkey.toList
    ++ beBytes 4 policy.powMin.toNat ++ [boolByte policy.tokenRequired]
    ++ beBytes 4 policy.tokenHashes.length ++ policy.tokenHashes.flatMap Vector.toList
    ++ [boolByte policy.attributionRequired] ++ beBytes 8 policy.seq.toNat

def payloadV3 : Bytes :=
  sigDomainPolicyV3 ++ [recipientPolicyVersion] ++ policy.pubkey.toList
    ++ beBytes 4 policy.powMin.toNat ++ [boolByte policy.tokenRequired]
    ++ beBytes 4 policy.tokenHashes.length ++ policy.tokenHashes.flatMap Vector.toList
    ++ requirementPayload policy.attributionRequirement ++ beBytes 8 policy.seq.toNat

def payload : Except CoreError Bytes :=
  if policy.version = legacyRecipientPolicyVersion then
    if policy.attributionRequirement.isNone then .ok policy.payloadV1
    else .error (.malformedEnvelope "legacy policy carries unsigned attribution scope")
  else if policy.version = previousRecipientPolicyVersion then
    if policy.attributionRequirement.isNone then .ok policy.payloadV2
    else .error (.malformedEnvelope "legacy policy carries unsigned attribution scope")
  else if policy.version = recipientPolicyVersion then
    if policy.attributionRequired = policy.attributionRequirement.isSome then
      match policy.attributionRequirement with
      | some requirement => do
        requirement.validate
        return policy.payloadV3
      | none => .ok policy.payloadV3
    else .error (.malformedEnvelope "inconsistent attribution requirement")
  else .error (.malformedEnvelope "unsupported policy version")

/-- `verify` past the last stored sequence. -/
def verify (prim : Primitives) (policy : RecipientPolicy) (lastSeq : Option UInt64) :
    Except CoreError Unit := do
  if policy.tokenHashes.length > maxTokens then throw .tooLarge
  if lastSeq.any fun last => policy.seq ≤ last then throw .staleSequence
  verifyingKey prim policy.pubkey
  let payload ← policy.payload
  verifySignature prim policy.pubkey payload policy.signature

end RecipientPolicy

/-! ## Stored envelopes (`pigeonpost-core/src/envelope.rs`)

The outer layer that a loft stores and checks. -/

def envelopeVersion : UInt8 := 3

def legacyEnvelopeVersion : UInt8 := 2

def sigDomainWrapV3 : Bytes := ascii "pigeonpost/envelope/v3/wrap-sig"

def sigDomainSeal : Bytes := ascii "pigeonpost/envelope/v1/seal-sig"

def padBlock : ℕ := 256

def maxPlaintext : ℕ := 64 * 1024

def maxEnvelopeCiphertext : ℕ := maxPlaintext * 16

def attributionBlockVersion : UInt8 := 3

def attributionCiphertextLen : ℕ := 104 + 16

abbrev Bytes24 := Vector UInt8 24

def signingPayload (domain : Bytes) (nonce : Bytes24) (ciphertext : Bytes) : Bytes :=
  domain ++ nonce.toList ++ ciphertext

def sealSigningPayload (nonce : Bytes24) (ciphertext : Bytes) (sk : Option Bytes32) : Bytes :=
  signingPayload sigDomainSeal nonce ciphertext ++
    match sk with
    | some sk => 1 :: sk.toList
    | none => [0]

structure AttributionBlockV2 where
  epochId : UInt32
  ePk : Bytes32
  nonce : Bytes24
  ciphertext : Bytes
deriving DecidableEq

structure AttributionBlockV3 where
  blockVersion : UInt8
  keyId : ComplianceKeyId
  complianceKeyDigest : Bytes32
  ePk : Bytes32
  nonce : Bytes24
  ciphertext : Vector UInt8 attributionCiphertextLen
deriving DecidableEq

inductive AttributionBlock where
  | v2 (block : AttributionBlockV2)
  | v3 (block : AttributionBlockV3)
deriving DecidableEq

structure Wrap where
  version : UInt8
  ephemeralPubkey : Bytes32
  recipient : Bytes32
  nonce : Bytes24
  ciphertext : Bytes
  createdAt : UInt64
  signature : Bytes64
  powNonce : UInt64
  attribution : Option AttributionBlock
deriving DecidableEq

def validatePublicAttributionV3 : AttributionBlock → Except CoreError Unit
  | .v2 _ => .error (.malformedEnvelope "v2 attribution on v3 envelope")
  | .v3 block => do
    if block.blockVersion ≠ attributionBlockVersion ∨ block.keyId.purpose ≠ .attribution
        ∨ block.keyId.validate ≠ .ok () then
      throw (.malformedEnvelope "attribution version or key id")
    if block.ePk = Vector.replicate 32 0 then throw .invalidKey
    if block.complianceKeyDigest = Vector.replicate 32 0 then
      throw (.malformedEnvelope "empty compliance key digest")

namespace Wrap

def attributionPayload : Option AttributionBlock → Except CoreError Bytes
  | some (.v3 block) => do
    let keyId ← block.keyId.encode.mapError fun _ => .malformedEnvelope "attribution key id"
    return [1, block.blockVersion] ++ keyId ++ block.complianceKeyDigest.toList
      ++ block.ePk.toList ++ block.nonce.toList ++ block.ciphertext.toList
  | some (.v2 _) => .error (.malformedEnvelope "v2 attribution on v3 envelope")
  | none => .ok [0]

def signingPayloadV3 (wrap : Wrap) : Except CoreError Bytes := do
  let attribution ← attributionPayload wrap.attribution
  return sigDomainWrapV3 ++ [wrap.version] ++ wrap.ephemeralPubkey.toList
    ++ wrap.recipient.toList ++ wrap.nonce.toList ++ beBytes 8 wrap.ciphertext.length
    ++ wrap.ciphertext ++ beBytes 8 wrap.createdAt.toNat ++ attribution

/-- The public checks of an admission. -/
def verifyPublic (prim : Primitives) (wrap : Wrap) : Except CoreError Unit := do
  if wrap.version ≠ envelopeVersion then throw (.malformedEnvelope "v3 required for publish")
  verifyingKey prim wrap.recipient
  verifyingKey prim wrap.ephemeralPubkey
  if wrap.ciphertext.length ≤ 16 ∨ (wrap.ciphertext.length - 16) % padBlock ≠ 0 then
    throw (.malformedEnvelope "outer ciphertext length")
  match wrap.attribution with
  | some block => validatePublicAttributionV3 block
  | none => pure ()
  let payload ← wrap.signingPayloadV3
  verifySignature prim wrap.ephemeralPubkey payload wrap.signature

/-- The stable identifier: the signed outer core, and for legacy wraps the signature too. -/
def id (H : Type) [Sha256 H] (wrap : Wrap) : H :=
  if wrap.version = legacyEnvelopeVersion then
    Sha256.digest [.bytes (ascii "pigeonpost/wrap-id/v1" ++ [wrap.version]
      ++ wrap.ephemeralPubkey.toList ++ wrap.recipient.toList ++ wrap.nonce.toList
      ++ leBytes 8 wrap.ciphertext.length ++ wrap.ciphertext
      ++ leBytes 8 wrap.createdAt.toNat ++ wrap.signature.toList)]
  else
    Sha256.digest [.bytes (ascii "pigeonpost/wrap-id/v3" ++ [wrap.version]
      ++ wrap.ephemeralPubkey.toList ++ wrap.recipient.toList ++ wrap.nonce.toList
      ++ beBytes 8 wrap.ciphertext.length ++ wrap.ciphertext
      ++ beBytes 8 wrap.createdAt.toNat)]

/-- The ciphertext member: an array in legacy wraps, else bounded lowercase hexadecimal. -/
def ciphertextJson (wrap : Wrap) : Option Bytes :=
  if wrap.version = legacyEnvelopeVersion then some (Json.byteArray wrap.ciphertext)
  else if wrap.ciphertext.length > maxEnvelopeCiphertext then none
  else some (Json.plainText (hex wrap.ciphertext))

/-- The wrap as its serializer writes it, over the text of an attribution block. -/
def toJson (attribution : AttributionBlock → Bytes) (wrap : Wrap) : Option Bytes := do
  let ciphertext ← wrap.ciphertextJson
  return Json.object
    ([Json.member "version" (Json.number wrap.version.toNat),
      Json.member "ephemeral_pubkey" (Json.byteArray wrap.ephemeralPubkey.toList),
      Json.member "recipient" (Json.byteArray wrap.recipient.toList),
      Json.member "nonce" (Json.byteArray wrap.nonce.toList),
      Json.member "ciphertext" ciphertext,
      Json.member "created_at" (Json.number wrap.createdAt.toNat),
      Json.member "signature" (Json.byteArray wrap.signature.toList),
      Json.member "pow_nonce" (Json.number wrap.powNonce.toNat)]
    ++ (wrap.attribution.map fun block => Json.member "attribution" (attribution block)).toList)

end Wrap

end Pigeonpost
