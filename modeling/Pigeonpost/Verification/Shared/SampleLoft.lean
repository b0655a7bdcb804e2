import Pigeonpost.Program.Loft.Store
import Pigeonpost.Program.Loft.Server
import Pigeonpost.Verification.Loft.Texts
import Pigeonpost.Verification.Shared.SampleDirectory

/-! # A loft for concrete runs

One agent, its rotation, one envelope, and readers that undo their writers. -/

namespace Pigeonpost.SampleLoft

open SampleDirectory Vector List

theorem purposeByte_injective : Function.Injective CompliancePurpose.toByte := by
  intro a b h
  cases a <;> cases b <;> first | rfl | exact absurd h (by decide)

theorem jurisdictionByte_injective : Function.Injective Jurisdiction.toByte := by
  intro a b h
  cases a <;> cases b <;> first | rfl | exact absurd h (by decide)

def key (byte : UInt8) : Bytes32 := Vector.replicate 32 byte

/-- The first record of the agent, which commits to its second key. -/
def agent : AgentRecord where
  version := agentRecordVersion
  pubkey := key 1
  successorHash := Address.keyDigest ByteHash (key 2)
  seq := 1
  lofts := []
  powMin := 0
  attributionRequirement := none
  signature := Vector.replicate 64 0

def rotation : RotationRecord where
  version := rotationRecordVersion
  fromPubkey := key 1
  toPubkey := key 2
  nextSuccessorHash := key 3
  seq := 2
  activatedAt := 1000
  graceUntil := 1000 + 7776000
  outgoingSignature := Vector.replicate 64 0
  incomingSignature := Vector.replicate 64 0

def address : Address := Address.fromPubkey ByteHash (key 1)

def agentFields (record : AgentRecord) : List Bytes :=
  [[record.version], record.pubkey.toList, record.successorHash.toList,
    decimal record.seq.toNat, packFields record.lofts, decimal record.powMin.toNat,
    requirementPayload record.attributionRequirement, record.signature.toList]

theorem requirementPayload_injective : Function.Injective requirementPayload := by
  rintro (_ | ⟨version, jurisdiction, authority⟩) (_ | ⟨version', jurisdiction', authority'⟩) h
  · rfl
  · simp [requirementPayload] at h
  · simp [requirementPayload] at h
  · simp only [requirementPayload, cons_append, nil_append, cons.injEq, true_and] at h
    obtain ⟨rfl, hj, ha⟩ := h
    obtain rfl := jurisdictionByte_injective hj
    obtain rfl := toList_inj.mp ha
    rfl

theorem agentFields_injective : Function.Injective agentFields := by
  rintro ⟨version, pubkey, hash, seq, lofts, pow, requirement, signature⟩
    ⟨version', pubkey', hash', seq', lofts', pow', requirement', signature'⟩ h
  simp only [agentFields, cons.injEq, and_true] at h
  obtain ⟨rfl, h₁, h₂, h₃, h₄, h₅, h₆, h₇⟩ := h
  obtain rfl := toList_inj.mp h₁
  obtain rfl := toList_inj.mp h₂
  obtain rfl := decimal_uint64_injective h₃
  obtain rfl := packFields_injective h₄
  obtain rfl := decimal_uint32_injective h₅
  obtain rfl := requirementPayload_injective h₆
  obtain rfl := toList_inj.mp h₇
  rfl

def agentText (record : AgentRecord) : Bytes := packFields (agentFields record)

theorem agentText_injective : Function.Injective agentText :=
  packFields_injective.comp agentFields_injective

/-- The inverse of a writer, which computes on one value. -/
noncomputable def inverseAt {α : Type} (write : α → Bytes) (a : α) (text : Bytes) : Option α :=
  if text = write a then some a else Function.partialInv write text

theorem inverseAt_write {α : Type} {write : α → Bytes} (hw : Function.Injective write)
    (a b : α) : inverseAt write a (write b) = some b := by
  unfold inverseAt
  by_cases h : write b = write a
  · rw [if_pos h, hw h]
  · rw [if_neg h, Function.partialInv_left hw]

/-! ## Envelopes -/

def keyIdFields (keyId : ComplianceKeyId) : List Bytes :=
  [[keyId.version], [keyId.purpose.toByte], [keyId.jurisdiction.toByte],
    keyId.authority.toList, decimal keyId.epochStartMs.toNat, decimal keyId.generation.toNat]

theorem keyIdFields_injective : Function.Injective keyIdFields := by
  rintro ⟨version, purpose, jurisdiction, authority, start, generation⟩
    ⟨version', purpose', jurisdiction', authority', start', generation'⟩ h
  simp only [keyIdFields, cons.injEq, and_true] at h
  obtain ⟨rfl, h₁, h₂, h₃, h₄, h₅⟩ := h
  obtain rfl := purposeByte_injective h₁
  obtain rfl := jurisdictionByte_injective h₂
  obtain rfl := toList_inj.mp h₃
  obtain rfl := decimal_uint64_injective h₄
  obtain rfl := decimal_uint32_injective h₅
  rfl

def attributionFields : AttributionBlock → List Bytes
  | .v2 block => [[2], decimal block.epochId.toNat, block.ePk.toList, block.nonce.toList,
    block.ciphertext]
  | .v3 block => [[3], [block.blockVersion], packFields (keyIdFields block.keyId),
    block.complianceKeyDigest.toList, block.ePk.toList, block.nonce.toList,
    block.ciphertext.toList]

theorem attributionFields_injective : Function.Injective attributionFields := by
  rintro (⟨epoch, ePk, nonce, ciphertext⟩ | ⟨version, keyId, digest, ePk, nonce, ciphertext⟩)
    (⟨epoch', ePk', nonce', ciphertext'⟩ | ⟨version', keyId', digest', ePk', nonce', ciphertext'⟩) h
  · simp only [attributionFields, cons.injEq, and_true, true_and] at h
    obtain ⟨h₁, h₂, h₃, rfl⟩ := h
    obtain rfl := decimal_uint32_injective h₁
    obtain rfl := toList_inj.mp h₂
    obtain rfl := toList_inj.mp h₃
    rfl
  · simp [attributionFields] at h
  · simp [attributionFields] at h
  · simp only [attributionFields, cons.injEq, and_true, true_and] at h
    obtain ⟨rfl, h₁, h₂, h₃, h₄, h₅⟩ := h
    obtain rfl := keyIdFields_injective (packFields_injective h₁)
    obtain rfl := toList_inj.mp h₂
    obtain rfl := toList_inj.mp h₃
    obtain rfl := toList_inj.mp h₄
    obtain rfl := toList_inj.mp h₅
    rfl

def attributionText (block : AttributionBlock) : Bytes := packFields (attributionFields block)

theorem attributionText_injective : Function.Injective attributionText :=
  packFields_injective.comp attributionFields_injective

/-- The shortest envelope, to the first key. -/
def wrap : Wrap where
  version := envelopeVersion
  ephemeralPubkey := key 4
  recipient := key 1
  nonce := Vector.replicate 24 0
  ciphertext := List.replicate 272 0
  createdAt := 0
  signature := Vector.replicate 64 0
  powNonce := 0
  attribution := none

def wrapText : Bytes := (wrap.toJson attributionText).getD []

open Classical in
/-- The public envelope of a text, which computes on one. -/
noncomputable def readPublicWrap (text : Bytes) : Option Wrap :=
  if text = wrapText then some wrap
  else if h : ∃ other : Wrap, other.verifyPublic SampleDirectory.prim = .ok () ∧
      other.toJson attributionText = some text then some h.choose
  else none

theorem readPublicWrap_eq_some {other : Wrap} {text : Bytes}
    (hp : other.verifyPublic SampleDirectory.prim = .ok ())
    (ht : other.toJson attributionText = some text) : readPublicWrap text = some other := by
  have hv := (Wrap.length_ciphertext_of_verifyPublic hp).1
  unfold readPublicWrap
  by_cases hs : text = wrapText
  · rw [if_pos hs]
    have hw : wrap.toJson attributionText = some wrapText := by decide +kernel
    rw [Wrap.toJson_inj attributionText_injective hv rfl ht (hs ▸ hw)]
  · have he : ∃ other : Wrap, other.verifyPublic SampleDirectory.prim = .ok () ∧
        other.toJson attributionText = some text := ⟨other, hp, ht⟩
    rw [if_neg hs, dif_pos he]
    obtain ⟨hc, hct⟩ := he.choose_spec
    rw [Wrap.toJson_inj attributionText_injective hv
      (Wrap.length_ciphertext_of_verifyPublic hc).1 ht hct]

/-! ## The loft -/

noncomputable def json : LoftJson where
  attribution := attributionText
  readWrap := readPublicWrap
  policy _ := []
  readPolicy _ := none
  agent := agentText
  readAgent := inverseAt agentText agent
  readRotation := inverseAt RotationRecord.toJson rotation

noncomputable def ctx : LoftContext := ⟨SampleDirectory.prim, json⟩

/-- Publish requests are the texts of their envelopes. -/
noncomputable def serverCtx : ServerContext where
  toLoftContext := ctx
  urlText := id
  readPublish body := (readPublicWrap body).map fun wrap => ⟨wrap, none⟩

def config (maxEventBytes maxFetchResponseBytes : ℕ) : LoftConfig where
  pubkey := key 9
  origin := ascii "https://loft.example"
  capacityBytes := 20 * 1024 * 1024 * 1024
  retentionDays := 30
  maxEventBytes := maxEventBytes
  maxRequestBytes := 2 * 1024 * 1024 + 64 * 1024
  defaultFetchLimit := 100
  maxFetchLimit := 500
  maxFetchResponseBytes := maxFetchResponseBytes
  rateLimitPerMinute := 120
  globalRequestsPerMinute := 2400
  globalBytesPerMinute := 128 * 1024 * 1024
  sourceRequestsPerMinute := 600
  sourceBytesPerMinute := 32 * 1024 * 1024
  recipientBytesPerMinute := 16 * 1024 * 1024
  maxConcurrentConnections := 256
  maxConcurrentRequests := 128
  maxBlockingOperations := 8
  maxLimiterKeys := 4096
  headerTimeoutSecs := 5
  requestTimeoutSecs := 15
  responseTimeoutSecs := 15
  traceTimeoutMs := 250
  trustedProxies := []
  sweepBatch := 500
  sweepIntervalSecs := 300

/-- A fetch of the first mailbox from its start. -/
def fetchRequest : FetchRequest where
  auth := ⟨key 1, key 9, ascii "https://loft.example", 0, 0, Vector.replicate 64 0⟩
  limit := none

end Pigeonpost.SampleLoft
