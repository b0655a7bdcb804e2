import Pigeonpost.Verification.Entry.Unambiguous
import Pigeonpost.Verification.Seal.Pinned
import Pigeonpost.Verification.Shared.SampleLoft

/-! # What signatures fix

A signature is made over bytes. Two records, policies or envelopes that are signed as the
same bytes differ in nothing but their signatures. -/

namespace Pigeonpost

open List hiding Vector

/-! ## Fields -/

variable {r r' : Bytes}

theorem vectors_append_inj {n : ℕ} {xs ys : List (Vector UInt8 n)} (hl : xs.length = ys.length)
    (h : xs.flatMap Vector.toList ++ r = ys.flatMap Vector.toList ++ r') : xs = ys ∧ r = r' :=
  flatMap_append_inj (P := fun _ => True) (fun _ _ h => vector_append_inj.mp h) hl (by simp)
    (by simp) h

theorem beField_append_inj {a b : Bytes} (ha : a.length < 2 ^ 32) (hb : b.length < 2 ^ 32)
    (h : beBytes 4 a.length ++ a ++ r = beBytes 4 b.length ++ b ++ r') : a = b ∧ r = r' := by
  rw [append_assoc, append_assoc, append_inj_of_length (by simp), beBytes_inj ha hb] at h
  exact (append_inj_of_length h.1).mp h.2

theorem requirementPayload_append_inj {a b : Option AttributionRequirement}
    (h : requirementPayload a ++ r = requirementPayload b ++ r') : a = b ∧ r = r' := by
  have hl : (requirementPayload a).length = (requirementPayload b).length := by
    rcases a with _ | a <;> rcases b with _ | b
    · rfl
    · cases (cons.inj h).1
    · cases (cons.inj h).1
    · simp [requirementPayload]
  rw [append_inj_of_length hl] at h
  exact ⟨SampleLoft.requirementPayload_injective h.1, h.2⟩

/-- Texts that begin differently differ. -/
theorem append_ne_of_take {a b : Bytes} (n : ℕ) (ha : n ≤ a.length) (hb : n ≤ b.length)
    (h : a.take n ≠ b.take n) : a ++ r ≠ b ++ r' := by
  intro heq
  have ht := congrArg (take n) heq
  rw [take_append_of_le_length ha, take_append_of_le_length hb] at ht
  exact h ht

/-- A requirement is checked before anything that carries it is signed. -/
theorem eq_of_checked {requirement : Option AttributionRequirement} {bytes payload : Bytes}
    (h : (match requirement with
      | some requirement => do
        requirement.validate
        return bytes
      | none => .ok bytes) = Except.ok payload) : payload = bytes := by
  cases requirement with
  | none => exact (Except.ok.inj h).symm
  | some =>
    obtain ⟨_, -, h⟩ := bind_eq_ok.mp h
    exact (pure_eq_ok.mp h).symm

/-! ## Records -/

section Records

variable {prim : Primitives}

theorem length_of_validateLoftsFrom {total : ℕ} {lofts : List Bytes}
    (h : validateLoftsFrom prim total lofts = .ok ()) : ∀ loft ∈ lofts, loft.length < 2 ^ 32 := by
  induction lofts generalizing total with
  | nil => simp
  | cons loft lofts ih =>
    simp only [validateLoftsFrom, ok_iff, not_or, not_lt] at h
    obtain ⟨⟨-, hl⟩, -, _, -, -, hr⟩ := h
    exact forall_mem_cons.mpr ⟨lt_of_le_of_lt hl (by decide), ih hr⟩

/-- The record passes the checks of `verify` up to its signature, which is over the payload. -/
structure AgentRecord.Signs (prim : Primitives) (record : AgentRecord) (payload : Bytes) :
    Prop where
  lofts : validateLoftList prim record.lofts = .ok ()
  payload : record.payload = .ok payload

variable {a b : AgentRecord} {payload : Bytes}

theorem AgentRecord.Signs.bounds (h : a.Signs prim payload) :
    a.lofts.length < 2 ^ 32 ∧ ∀ loft ∈ a.lofts, loft.length < 2 ^ 32 := by
  have hl := h.lofts
  simp only [validateLoftList, ok_iff, not_lt] at hl
  exact ⟨lt_of_le_of_lt hl.1 (by decide), length_of_validateLoftsFrom hl.2⟩

theorem AgentRecord.payload_eq_ok (h : a.payload = .ok payload) :
    a.version = legacyAgentRecordVersion ∧ a.attributionRequirement = none ∧
        payload = recordPayloadV1 a ∨
      a.version = agentRecordVersion ∧ payload = recordPayloadV2 a := by
  unfold AgentRecord.payload at h
  split_ifs at h with h₁ h₂ h₃
  · exact .inl ⟨h₁, Option.isNone_iff_eq_none.mp h₂, (Except.ok.inj h).symm⟩
  · exact .inr ⟨h₃, eq_of_checked h⟩

theorem AgentRecord.Signs.unique (ha : a.Signs prim payload) (hb : b.Signs prim payload) :
    { a with signature := b.signature } = b := by
  obtain ⟨hn, hs⟩ := ha.bounds
  obtain ⟨hn', hs'⟩ := hb.bounds
  cases a
  cases b
  rcases payload_eq_ok ha.payload with ⟨hv, hr, rfl⟩ | ⟨hv, rfl⟩ <;>
    rcases payload_eq_ok hb.payload with ⟨hv', hr', heq⟩ | ⟨hv', heq⟩ <;>
    simp only [recordPayloadV1, recordPayloadV2, append_assoc] at heq <;>
    try exact absurd heq (append_ne_of_take 26 (by decide) (by decide) (by decide))
  · rw [append_inj_of_length rfl, vector_append_inj, vector_append_inj, leBytes_uint64_append_inj,
      append_inj_of_length (by simp), leBytes_inj hn hn'] at heq
    obtain ⟨-, hk, hh, hseq, hl, heq⟩ := heq
    obtain ⟨hlofts, heq⟩ := flatMap_append_inj (f := fieldBytes) fieldBytes_append_inj hl hs hs' heq
    rw [leBytes_inj (UInt32.toNat_lt _) (UInt32.toNat_lt _), UInt32.toNat_inj] at heq
    simp_all
  · rw [append_inj_of_length rfl, byte_append_inj, vector_append_inj, vector_append_inj,
      append_inj_of_length (by simp), beBytes_uint64_inj, append_inj_of_length (by simp),
      beBytes_inj hn hn'] at heq
    obtain ⟨-, -, hk, hh, hseq, hl, heq⟩ := heq
    obtain ⟨hlofts, heq⟩ := flatMap_append_inj beField_append_inj hl hs hs' heq
    rw [append_inj_of_length (by simp), beBytes_uint32_inj] at heq
    have hreq := SampleLoft.requirementPayload_injective heq.2
    simp_all

end Records

theorem rotationBody_inj {a b : RotationRecord} (h : rotationBody a = rotationBody b) :
    { a with outgoingSignature := b.outgoingSignature
             incomingSignature := b.incomingSignature } = b := by
  cases a
  simp only [rotationBody, append_assoc, vector_append_inj, leBytes_uint64_append_inj,
    byte_append_inj] at h
  obtain ⟨rfl, rfl, rfl, rfl, rfl, rfl, h⟩ := h
  rw [leBytes_inj (UInt64.toNat_lt _) (UInt64.toNat_lt _), UInt64.toNat_inj] at h
  rw [h]

/-- Records that are signed as the same bytes differ in their signatures only, and no bytes
are signed in two roles. -/
theorem records_fully_signed (prim : Primitives) :
    (∀ (a b : AgentRecord) (payload : Bytes), a.Signs prim payload → b.Signs prim payload →
      { a with signature := b.signature } = b) ∧
    (∀ (domain : Bytes) (a b : RotationRecord), rotationSigningPayload domain (rotationBody a) =
          rotationSigningPayload domain (rotationBody b) →
        { a with outgoingSignature := b.outgoingSignature
                 incomingSignature := b.incomingSignature } = b) ∧
    ∀ a b : RotationRecord, rotationSigningPayload sigDomainRotationOutgoing (rotationBody a) ≠
        rotationSigningPayload sigDomainRotationIncoming (rotationBody b) ∧
      ∀ (record : AgentRecord) (payload : Bytes), record.Signs prim payload →
        payload ≠ rotationSigningPayload sigDomainRotationOutgoing (rotationBody a) ∧
          payload ≠ rotationSigningPayload sigDomainRotationIncoming (rotationBody a) := by
  refine ⟨fun a b payload ha hb => ha.unique hb, fun domain a b h => ?_, fun a b =>
    ⟨?_, fun record payload h => ?_⟩⟩
  · exact rotationBody_inj (append_cancel_left h)
  · exact append_ne_of_take 31 (by decide) (by decide) (by decide)
  · unfold rotationSigningPayload
    rcases AgentRecord.payload_eq_ok h.payload with ⟨-, -, rfl⟩ | ⟨-, rfl⟩ <;>
      simp only [recordPayloadV1, recordPayloadV2, append_assoc]
    all_goals exact ⟨append_ne_of_take 12 (by decide) (by decide) (by decide),
        append_ne_of_take 12 (by decide) (by decide) (by decide)⟩

theorem records_fully_signed_agent :
    ∃ payload, SampleLoft.agent.Signs SampleDirectory.prim payload ∧
      ∀ record : AgentRecord, record.Signs SampleDirectory.prim payload →
        { SampleLoft.agent with signature := record.signature } = record :=
  ⟨recordPayloadV2 SampleLoft.agent, ⟨rfl, rfl⟩, fun record h =>
    (records_fully_signed SampleDirectory.prim).1 _ record _ ⟨rfl, rfl⟩ h⟩

/-! ## Policies -/

namespace RecipientPolicy

variable {a : RecipientPolicy} {payload : Bytes}

/-- The policy passes the checks of `verify` up to its signature, which is over the payload. -/
structure Signs (policy : RecipientPolicy) (payload : Bytes) : Prop where
  tokens : policy.tokenHashes.length ≤ maxTokens
  payload : policy.payload = .ok payload

theorem payload_eq_ok (h : a.payload = .ok payload) :
    a.version = legacyRecipientPolicyVersion ∧ a.attributionRequirement = none ∧
        payload = a.payloadV1 ∨
      a.version = previousRecipientPolicyVersion ∧ a.attributionRequirement = none ∧
        payload = a.payloadV2 ∨
      a.version = recipientPolicyVersion ∧
        a.attributionRequired = a.attributionRequirement.isSome ∧ payload = a.payloadV3 := by
  unfold RecipientPolicy.payload at h
  split_ifs at h with h₁ h₂ h₃ h₄ h₅ h₆
  · exact .inl ⟨h₁, Option.isNone_iff_eq_none.mp h₂, (Except.ok.inj h).symm⟩
  · exact .inr (.inl ⟨h₃, Option.isNone_iff_eq_none.mp h₄, (Except.ok.inj h).symm⟩)
  · exact .inr (.inr ⟨h₅, h₆, eq_of_checked h⟩)

end RecipientPolicy

/-- Policies of whatever versions that are signed as the same bytes differ in their
signatures only. -/
theorem policies_fully_signed (a b : RecipientPolicy) (payload : Bytes) (ha : a.Signs payload)
    (hb : b.Signs payload) : { a with signature := b.signature } = b := by
  have hn : a.tokenHashes.length < 2 ^ 32 := lt_of_le_of_lt ha.tokens (by decide)
  have hn' : b.tokenHashes.length < 2 ^ 32 := lt_of_le_of_lt hb.tokens (by decide)
  cases a
  cases b
  rcases RecipientPolicy.payload_eq_ok ha.payload with
      ⟨hv, hr, rfl⟩ | ⟨hv, hr, rfl⟩ | ⟨hv, hr, rfl⟩ <;>
    rcases RecipientPolicy.payload_eq_ok hb.payload with
      ⟨hv', hr', heq⟩ | ⟨hv', hr', heq⟩ | ⟨hv', hr', heq⟩ <;>
    simp only [RecipientPolicy.payloadV1, RecipientPolicy.payloadV2, RecipientPolicy.payloadV3,
      append_assoc] at heq <;>
    try exact absurd heq (append_ne_of_take 30 (by decide) (by decide) (by decide))
  · rw [append_inj_of_length rfl, vector_append_inj, leBytes_uint32_append_inj, byte_append_inj,
      boolByte_inj, append_inj_of_length (by simp), leBytes_inj hn hn'] at heq
    obtain ⟨-, hk, hp, ht, hl, heq⟩ := heq
    obtain ⟨hts, heq⟩ := vectors_append_inj hl heq
    rw [leBytes_uint64_append_inj, cons.injEq, boolByte_inj] at heq
    simp_all
  all_goals
    rw [append_inj_of_length rfl, byte_append_inj, vector_append_inj,
      append_inj_of_length (by simp), beBytes_uint32_inj, byte_append_inj, boolByte_inj,
      append_inj_of_length (by simp), beBytes_inj hn hn'] at heq
    obtain ⟨-, -, hk, hp, ht, hl, heq⟩ := heq
    obtain ⟨hts, heq⟩ := vectors_append_inj hl heq
  · rw [byte_append_inj, boolByte_inj, beBytes_uint64_inj] at heq
    simp_all
  · obtain ⟨hreq, heq⟩ := requirementPayload_append_inj heq
    rw [beBytes_uint64_inj] at heq
    simp_all

/-- A policy with two tokens, with a requirement where its version has them. -/
def samplePolicy (version fill : UInt8) : RecipientPolicy where
  version
  pubkey := SampleLoft.key 1
  powMin := 20
  tokenRequired := true
  tokenHashes := [SampleLoft.key 2, SampleLoft.key 3]
  attributionRequired := version = recipientPolicyVersion
  attributionRequirement := if version = recipientPolicyVersion then
    some ⟨attributionRequirementVersion, .test, SampleLoft.key 4⟩ else none
  seq := 7
  signature := Vector.replicate 64 fill

/-- The same policy signed twice, in two versions. -/
theorem policies_fully_signed_sample :
    { samplePolicy recipientPolicyVersion 1 with signature := Vector.replicate 64 2 } =
        samplePolicy recipientPolicyVersion 2 ∧
      { samplePolicy previousRecipientPolicyVersion 1 with signature := Vector.replicate 64 2 } =
        samplePolicy previousRecipientPolicyVersion 2 :=
  ⟨policies_fully_signed _ (samplePolicy recipientPolicyVersion 2) _
      ⟨by decide, rfl⟩ ⟨by decide, rfl⟩,
    policies_fully_signed _ (samplePolicy previousRecipientPolicyVersion 2) _
      ⟨by decide, rfl⟩ ⟨by decide, rfl⟩⟩

/-! ## Envelopes -/

namespace Wrap

variable {a b : Wrap} {bytes : Bytes} {block block' : Option AttributionBlock}

theorem length_attributionPayload (h : attributionPayload block = .ok bytes) :
    bytes.length = if block.isSome then 257 else 1 := by
  rcases block with _ | _ | block
  · cases h
    rfl
  · cases h
  · simp only [attributionPayload, ok_iff] at h
    obtain ⟨keyId, hk, rfl⟩ := h
    simp only [length_append, ComplianceKeyId.length_encode hk, Vector.length_toList]
    rfl

theorem attributionPayload_inj (h : attributionPayload block = .ok bytes)
    (h' : attributionPayload block' = .ok bytes) : block = block' := by
  have hl := (length_attributionPayload h).symm.trans (length_attributionPayload h')
  rcases block with _ | _ | block
  · cases block' with
    | none => rfl
    | some => simp at hl
  · cases h
  · rcases block' with _ | _ | block'
    · simp at hl
    · cases h'
    · simp only [attributionPayload, ok_iff] at h h'
      obtain ⟨keyId, hk, rfl⟩ := h
      obtain ⟨keyId', hk', heq⟩ := h'
      simp only [append_assoc, cons_append, cons.injEq, nil_append] at heq
      obtain ⟨-, hv, heq⟩ := heq
      obtain ⟨hid, heq⟩ := ComplianceKeyId.encode_append_inj hk' hk heq
      rw [vector_append_inj, vector_append_inj, vector_append_inj, Vector.toList_inj] at heq
      cases block
      cases block'
      simp_all

theorem signingPayloadV3_inj (ha : a.signingPayloadV3 = .ok bytes)
    (hb : b.signingPayloadV3 = .ok bytes) :
    { a with signature := b.signature, powNonce := b.powNonce } = b := by
  simp only [signingPayloadV3, ok_iff] at ha hb
  obtain ⟨attribution, hat, rfl⟩ := ha
  obtain ⟨attribution', ha', heq⟩ := hb
  simp only [append_assoc] at heq
  rw [append_inj_of_length rfl, byte_append_inj, vector_append_inj, vector_append_inj,
    vector_append_inj, append_inj_of_length (by simp)] at heq
  obtain ⟨-, hv, he, hr, hn, hlen, heq⟩ := heq
  have hl : b.ciphertext.length = a.ciphertext.length := by
    have hm := congrArg (readLE ∘ reverse) hlen
    have ht := congrArg length heq
    simp only [Function.comp_apply, beBytes, reverse_reverse, readLE_leBytes_mod] at hm
    simp only [length_append, length_beBytes, length_attributionPayload hat,
      length_attributionPayload ha'] at ht
    split_ifs at ht <;> omega
  rw [append_inj_of_length hl, append_inj_of_length (by simp), beBytes_uint64_inj] at heq
  obtain ⟨hc, ht, rfl⟩ := heq
  have hblock := attributionPayload_inj hat ha'
  cases a
  cases b
  simp_all

theorem id_eq {H : Type} [Sha256 H] (h : a.version = envelopeVersion) :
    a.id H = Sha256.digest [.bytes (ascii "pigeonpost/wrap-id/v3" ++ [a.version]
      ++ a.ephemeralPubkey.toList ++ a.recipient.toList ++ a.nonce.toList
      ++ beBytes 8 a.ciphertext.length ++ a.ciphertext ++ beBytes 8 a.createdAt.toNat)] := by
  rw [id, if_neg (by rw [h]; decide)]

end Wrap

/-- Under a hash without collisions: envelopes that are signed as the same bytes differ in
their signatures and their work only, and those of one identifier in their attribution, too. -/
theorem wraps_fully_signed (H : Type) [Sha256 H]
    (hs : Function.Injective fun data : Bytes => (Sha256.digest [.bytes data] : H)) (a b : Wrap)
    (ha : a.version = envelopeVersion) (hb : b.version = envelopeVersion) :
    (∀ payload, a.signingPayloadV3 = .ok payload → b.signingPayloadV3 = .ok payload →
      { a with signature := b.signature, powNonce := b.powNonce } = b ∧ a.id H = b.id H) ∧
    (a.id H = b.id H →
      { a with
        signature := b.signature
        powNonce := b.powNonce
        attribution := b.attribution } = b) := by
  rw [Wrap.id_eq ha, Wrap.id_eq hb]
  refine ⟨fun payload hp hp' => ?_, fun h => ?_⟩
  · have heq := Wrap.signingPayloadV3_inj hp hp'
    exact ⟨heq, by rw [← heq]⟩
  · have heq := hs h
    simp only [append_assoc] at heq
    rw [append_inj_of_length rfl, byte_append_inj, vector_append_inj, vector_append_inj,
      vector_append_inj, append_inj_of_length (by simp)] at heq
    obtain ⟨-, hv, he, hr, hn, -, heq⟩ := heq
    obtain ⟨hc, ht⟩ := append_inj' heq (by simp)
    rw [beBytes_uint64_inj] at ht
    cases a
    cases b
    simp_all

/-- Hashes as the bytes that are hashed. -/
structure PlainHash where
  bytes : Bytes

instance : Sha256 PlainHash where
  digest chunks := ⟨chunks.flatMap fun
    | .bytes data => data
    | .hash hash => hash.bytes⟩

theorem wraps_fully_signed_sample :
    SampleLoft.wrap.id PlainHash = Wrap.id PlainHash { SampleLoft.wrap with powNonce := 1 } := by
  have hs : Function.Injective fun data : Bytes => (Sha256.digest [.bytes data] : PlainHash) :=
    fun a b h => by simpa [Sha256.digest] using h
  exact ((wraps_fully_signed PlainHash hs SampleLoft.wrap { SampleLoft.wrap with powNonce := 1 }
    rfl rfl).1 _ rfl rfl).2

/-! ## Seals -/

/-- A seal without a secret is signed as one whose secret ends in its last byte. -/
theorem sealSigningPayload_ambiguous :
    sealSigningPayload (Vector.replicate 24 0) [] (some (Vector.replicate 32 0)) =
      sealSigningPayload (Vector.replicate 24 0) (1 :: replicate 31 0) none := by
  decide

/-- What is signed tells seals apart, by the lengths of their ciphertexts and the presence of
their secrets, just where the one does not leave room for the secret of the other. -/
theorem sealSigningPayload_inj_iff (n m : ℕ) (secret secret' : Bool) :
    (∀ (nonce nonce' : Bytes24) (ciphertext ciphertext' : Bytes) (sk sk' : Option Bytes32),
      ciphertext.length = n → ciphertext'.length = m → sk.isSome = secret → sk'.isSome = secret' →
      sealSigningPayload nonce ciphertext sk = sealSigningPayload nonce' ciphertext' sk' →
      nonce = nonce' ∧ ciphertext = ciphertext' ∧ sk = sk') ↔
    ¬(secret = false ∧ secret' = true ∧ n = m + 32) ∧
      ¬(secret = true ∧ secret' = false ∧ m = n + 32) := by
  have hc : ∀ k, sealSigningPayload (Vector.replicate 24 0) (replicate k 0)
      (some (Vector.replicate 32 0)) =
        sealSigningPayload (Vector.replicate 24 0) (replicate k 0 ++ 1 :: replicate 31 0) none := by
    intro k
    simp [sealSigningPayload, signingPayload]
  constructor
  · intro h
    constructor
    · rintro ⟨rfl, rfl, rfl⟩
      cases (h _ _ _ _ _ _ (by simp) (by simp) rfl rfl (hc m).symm).2.2
    · rintro ⟨rfl, rfl, rfl⟩
      cases (h _ _ _ _ _ _ (by simp) (by simp) rfl rfl (hc n)).2.2
  · rintro ⟨hn, hm⟩ nonce nonce' ciphertext ciphertext' sk sk' rfl rfl rfl rfl h
    simp only [sealSigningPayload, signingPayload, append_assoc] at h
    rw [append_inj_of_length rfl, vector_append_inj] at h
    obtain ⟨-, rfl, h⟩ := h
    have hl := congrArg length h
    cases sk with
    | none =>
      cases sk' with
      | none => exact ⟨rfl, (append_inj' h rfl).1, rfl⟩
      | some =>
        simp at hl hn
        omega
    | some =>
      cases sk' with
      | none =>
        simp at hl hm
        omega
      | some =>
        obtain ⟨hc, hs⟩ := append_inj' h (by simp)
        exact ⟨rfl, hc, congrArg some (Vector.toList_inj.mp (cons.inj hs).2)⟩

/-- Ciphertexts of one and two padded blocks, the first with a secret. -/
theorem sealSigningPayload_inj_iff_padded :
    sealSigningPayload (Vector.replicate 24 7) (replicate (padBlock + 16) 1)
        (some (Vector.replicate 32 0)) ≠
      sealSigningPayload (Vector.replicate 24 7) (replicate (2 * padBlock + 16) 1) none := by
  have hi := (sealSigningPayload_inj_iff (padBlock + 16) (2 * padBlock + 16) true false).mpr
    (by decide)
  intro h
  cases (hi _ _ _ _ _ _ (by simp) (by simp) rfl rfl h).2.2

end Pigeonpost
