import Pigeonpost.Library.Outcome
import Pigeonpost.Program.Disclosure.Leaf

/-! # What an encoded disclosure leaf reads back as -/

namespace Pigeonpost

open List

variable {keyId : ComplianceKeyId} {bytes : Bytes} {intent : DisclosureIntent}
  {completion : DisclosureCompletion}

/-! ## Reading at a cursor -/

@[simp] theorem bytes32_toList (value : Bytes32) : bytes32 value.toList = value := by
  simp [bytes32]

@[simp] theorem readFixed32_append (value : Bytes32) (rest : Bytes) :
    readFixed32 (value.toList ++ rest) = (value, rest) := by
  have hl : value.toList.length = 32 := by simp
  rw [readFixed32, take_left' hl, drop_left' hl, bytes32_toList]

@[simp] theorem readU64_append (value : UInt64) (rest : Bytes) :
    readU64 (beBytes 8 value.toNat ++ rest) = (value, rest) := by
  have hl : (beBytes 8 value.toNat).length = 8 := length_beBytes 8 _
  rw [readU64, take_left' hl, drop_left' hl, readBE_beBytes value.toNat_lt, UInt64.ofNat_toNat]

@[simp] theorem readU32_append (value : UInt32) (rest : Bytes) :
    readU32 (beBytes 4 value.toNat ++ rest) = (value, rest) := by
  have hl : (beBytes 4 value.toNat).length = 4 := length_beBytes 4 _
  rw [readU32, take_left' hl, drop_left' hl, readBE_beBytes value.toNat_lt, UInt32.ofNat_toNat]

@[simp] theorem readByte_cons (value : UInt8) (rest : Bytes) :
    readByte (value :: rest) = (value, rest) := rfl

/-- What is left behind a domain and a version byte. -/
@[simp] theorem drop_domain_version (domain body : Bytes) (version : UInt8) :
    (domain ++ version :: body).drop (domain.length + 1) = body := by
  simp

/-! ## Key identifiers -/

@[simp] theorem CompliancePurpose.ofByte_toByte (purpose : CompliancePurpose) :
    CompliancePurpose.ofByte purpose.toByte = .ok purpose := by
  cases purpose <;> rfl

@[simp] theorem Jurisdiction.ofByte_toByte (jurisdiction : Jurisdiction) :
    Jurisdiction.ofByte jurisdiction.toByte = .ok jurisdiction := by
  cases jurisdiction <;> rfl

namespace ComplianceKeyId

theorem encode_eq_ok : keyId.encode = .ok bytes ↔ keyId.version = complianceKeyIdVersion ∧
        bytes = [keyId.version, keyId.purpose.toByte, keyId.jurisdiction.toByte]
          ++ keyId.authority.toList ++ beBytes 8 keyId.epochStartMs.toNat
          ++ beBytes 4 keyId.generation.toNat := by
  simp only [encode, validate, ok_iff]
  by_cases hv : keyId.version = complianceKeyIdVersion
  · simp [hv, eq_comm]
  · simp [hv]

theorem length_encode (h : keyId.encode = .ok bytes) : bytes.length = complianceKeyIdLen := by
  obtain ⟨-, rfl⟩ := encode_eq_ok.mp h
  simp [complianceKeyIdLen]

theorem decode_encode (h : keyId.encode = .ok bytes) : decode bytes = .ok keyId := by
  have hl := length_encode h
  obtain ⟨hv, rfl⟩ := encode_eq_ok.mp h
  obtain ⟨version, purpose, jurisdiction, authority, epochStartMs, generation⟩ := keyId
  obtain rfl : version = complianceKeyIdVersion := hv
  let head : Bytes := [complianceKeyIdVersion, purpose.toByte, jurisdiction.toByte]
  have ha : ((head ++ authority.toList ++ beBytes 8 epochStartMs.toNat
      ++ beBytes 4 generation.toNat).drop 3).take 32 = authority.toList := by
    rw [append_assoc, append_assoc]
    exact take_drop_append rfl (by simp)
  have he : ((head ++ authority.toList ++ beBytes 8 epochStartMs.toNat
      ++ beBytes 4 generation.toNat).drop 35).take 8 = beBytes 8 epochStartMs.toNat := by
    rw [append_assoc]
    exact take_drop_append (by simp [head]) (by simp)
  have hg : ((head ++ authority.toList ++ beBytes 8 epochStartMs.toNat
      ++ beBytes 4 generation.toNat).drop 43).take 4 = beBytes 4 generation.toNat := by
    rw [drop_left' (by simp [head]), take_of_length_le (by simp)]
  unfold decode
  rw [if_neg (not_not.mpr hl), ha, he, hg, bytes32_toList,
    readBE_beBytes epochStartMs.toNat_lt, readBE_beBytes generation.toNat_lt]
  simp [bind, Except.bind, pure, Except.pure]

variable {a b : ComplianceKeyId}

theorem encode_inj (ha : a.encode = .ok bytes) (hb : b.encode = .ok bytes) : a = b :=
  Except.ok.inj ((decode_encode ha).symm.trans (decode_encode hb))

theorem encode_append_inj {bytes' rest rest' : Bytes} (ha : a.encode = .ok bytes)
    (hb : b.encode = .ok bytes') (h : bytes ++ rest = bytes' ++ rest') : a = b ∧ rest = rest' := by
  obtain ⟨rfl, hr⟩ := append_inj h ((length_encode ha).trans (length_encode hb).symm)
  exact ⟨encode_inj ha hb, hr⟩

end ComplianceKeyId

/-! ## Intents -/

namespace DisclosureIntent

theorem encodeKeyIds_cons {rest : List ComplianceKeyId} : encodeKeyIds (keyId :: rest) = .ok bytes ↔
      ∃ encoded, keyId.encode = .ok encoded ∧
        ∃ others, encodeKeyIds rest = .ok others ∧ encoded ++ others = bytes := by
  simp only [encodeKeyIds, ok_iff]

variable {keyIds : List ComplianceKeyId}

theorem length_encodeKeyIds (h : encodeKeyIds keyIds = .ok bytes) :
    bytes.length = keyIds.length * complianceKeyIdLen := by
  induction keyIds generalizing bytes with
  | nil =>
    cases h
    simp
  | cons _ _ ih =>
    obtain ⟨encoded, he, others, ho, rfl⟩ := encodeKeyIds_cons.mp h
    rw [length_append, ComplianceKeyId.length_encode he, ih ho, length_cons]
    ring

theorem decodeKeyIds_encodeKeyIds (h : encodeKeyIds keyIds = .ok bytes) (rest : Bytes) :
    decodeKeyIds keyIds.length (bytes ++ rest) = .ok (keyIds, rest) := by
  induction keyIds generalizing bytes with
  | nil =>
    cases h
    rfl
  | cons _ _ ih =>
    obtain ⟨encoded, he, tail, ht, rfl⟩ := encodeKeyIds_cons.mp h
    have hl := ComplianceKeyId.length_encode he
    rw [length_cons, decodeKeyIds, append_assoc, take_left' hl,
      drop_left' hl, ComplianceKeyId.decode_encode he, ih ht]
    rfl

theorem validApprovers_eq_true {approvers : List Bytes32} (h : validApprovers approvers = true) :
    ∃ first second, approvers = [first, second] := by
  match approvers with
  | [first, second] => exact ⟨first, second, rfl⟩
  | [] | [_] | _ :: _ :: _ :: _ => cases h

/-- The fields of an intent behind its version, in the order in which they are read. -/
def body (intent : DisclosureIntent) (keyIds : Bytes) (first second : Bytes32) : Bytes :=
  intent.requestId.toList ++ (beBytes 8 intent.timestampMs.toNat
    ++ intent.jurisdiction.toByte :: intent.purpose.toByte
    :: UInt8.ofNat intent.keyIds.length :: (keyIds ++ (intent.orderCommitment.toList
    ++ (intent.requesterCommitment.toList ++ (intent.selectorCommitment.toList
    ++ 2 :: (first.toList ++ (second.toList ++ [])))))))

theorem encode_eq_ok (h : intent.encode = .ok bytes) :
    intent.isValid = true ∧ ∃ keyIds first second,
      encodeKeyIds intent.keyIds = .ok keyIds ∧ intent.approverCommitments = [first, second] ∧
      bytes = intentDomain ++ intentVersion :: intent.body keyIds first second := by
  simp only [encode, ok_iff, Bool.not_eq_true', Bool.not_eq_false] at h
  obtain ⟨hv, keyIds, hki, rfl⟩ := h
  have ha : validApprovers intent.approverCommitments = true := by
    simp only [isValid, Bool.and_eq_true] at hv
    tauto
  obtain ⟨first, second, hp⟩ := validApprovers_eq_true ha
  refine ⟨hv, keyIds, first, second, hki, hp, ?_⟩
  simp [body, hp]

theorem isValid_keyIds (h : intent.isValid = true) :
    0 < intent.keyIds.length ∧ intent.keyIds.length ≤ maxDisclosureKeys ∧
      strictlySortedKeyIds intent.keyIds = true := by
  simp only [isValid, Bool.and_eq_true, Bool.not_eq_true', decide_eq_true_eq] at h
  obtain ⟨⟨⟨⟨⟨-, hne⟩, hle⟩, -⟩, hs⟩, -⟩ := h
  exact ⟨length_pos_iff.mpr (by simpa using hne), hle, hs⟩

section

variable (h : intent.encode = .ok bytes)

include h

theorem length_encode : bytes.length =
      fixedPrefix + intent.keyIds.length * complianceKeyIdLen + (96 + 1 + 64) := by
  obtain ⟨-, keyIds, first, second, hki, -, rfl⟩ := encode_eq_ok h
  simp only [length_append, length_cons, Vector.length_toList, length_beBytes,
    length_encodeKeyIds hki, fixedPrefix, body, length_nil]
  omega

theorem isPrefixOf_encode : intentDomain.isPrefixOf bytes = true := by
  obtain ⟨-, keyIds, first, second, -, -, rfl⟩ := encode_eq_ok h
  exact isPrefixOf_iff_prefix.mpr (prefix_append _ _)

theorem decode_encode : decode bytes = .ok intent := by
  have hl := length_encode h
  have hs := isPrefixOf_encode h
  obtain ⟨hvalid, keyIds, first, second, hki, hp, hb⟩ := encode_eq_ok h
  obtain ⟨hpos, hm, hsor⟩ := isValid_keyIds hvalid
  have hc : (UInt8.ofNat intent.keyIds.length).toNat = intent.keyIds.length := by
    rw [UInt8.toNat_ofNat']
    have : maxDisclosureKeys = 64 := rfl
    omega
  have he : ¬bytes.length < fixedPrefix + 96 + 1 + 64 := by omega
  have hv : bytes.getD intentDomain.length 0 = intentVersion := by simp [hb]
  have hbody : bytes.drop (intentDomain.length + 1) = intent.body keyIds first second := by
    rw [hb, drop_domain_version]
  unfold decode
  rw [if_neg (by simp only [he, hs, hv]; decide)]
  simp only [hbody, body, readFixed32_append, readU64_append, readByte_cons,
    Jurisdiction.ofByte_toByte, CompliancePurpose.ofByte_toByte, hc]
  simp only [Except.mapError, bind, Except.bind]
  rw [if_neg (by omega), if_neg (not_not.mpr hl)]
  simp only [decodeKeyIds_encodeKeyIds hki, readFixed32_append, readByte_cons]
  have hint : DisclosureIntent.mk intent.requestId intent.timestampMs intent.jurisdiction
      intent.purpose intent.keyIds intent.orderCommitment intent.requesterCommitment
      intent.selectorCommitment [first, second] = intent := by
    rw [← hp]
  rw [hint, h, hsor]
  rfl

end

end DisclosureIntent

/-! ## Completions -/

namespace DisclosureCompletion

@[simp] theorem statusOfByte_toByte (status : CompletionStatus) :
    statusOfByte status.toByte = .ok status := by
  cases status <;> rfl

/-- The fields of a completion behind its version, in the order in which they are read. -/
def body (completion : DisclosureCompletion) : Bytes :=
  completion.requestId.toList ++ (beBytes 8 completion.timestampMs.toNat
    ++ completion.status.toByte :: (beBytes 4 completion.recordCount.toNat
    ++ (completion.resultCommitment.toList ++ [])))

section

variable (h : completion.encode = .ok bytes)

include h

theorem encode_eq_ok : bytes = completionDomain ++ completionVersion :: completion.body := by
  simp only [encode, ok_iff] at h
  obtain ⟨-, -, rfl⟩ := h
  simp [body]

theorem length_encode : bytes.length = completionDomain.length + 1 + 32 + 8 + 1 + 4 + 32 := by
  simp only [encode_eq_ok h, length_append, length_cons, body, Vector.length_toList,
    length_beBytes, length_nil]

theorem isPrefixOf_encode : completionDomain.isPrefixOf bytes = true := by
  rw [encode_eq_ok h]
  exact isPrefixOf_iff_prefix.mpr (prefix_append _ _)

theorem decode_encode : decode bytes = .ok completion := by
  have hl := length_encode h
  have hs := isPrefixOf_encode h
  have hb := encode_eq_ok h
  have hv : bytes.getD completionDomain.length 0 = completionVersion := by simp [hb]
  have hbody : bytes.drop (completionDomain.length + 1) = completion.body := by
    rw [hb, drop_domain_version]
  unfold decode
  rw [if_neg (by simp only [hl, hs, hv]; decide)]
  simp only [hbody, body, readFixed32_append, readU64_append, readByte_cons, statusOfByte_toByte,
    readU32_append, bind, Except.bind]
  rw [show DisclosureCompletion.mk completion.requestId completion.timestampMs completion.status
    completion.recordCount completion.resultCommitment = completion from rfl, h]
  rfl

end

end DisclosureCompletion

/-! ## Leaves -/

namespace DisclosureLeaf

theorem not_isPrefixOf_intentDomain {rest : Bytes} :
    intentDomain.isPrefixOf (completionDomain ++ rest) = false := by
  simp [intentDomain, completionDomain, ascii, isPrefixOf]

variable {leaf : DisclosureLeaf}

theorem decode_encode (h : leaf.encode = .ok bytes) : decode bytes = .ok leaf := by
  cases leaf with
  | intent =>
    rw [decode, if_pos (DisclosureIntent.isPrefixOf_encode h), DisclosureIntent.decode_encode h]
    rfl
  | completion =>
    have hn : ¬intentDomain.isPrefixOf bytes = true := by
      rw [DisclosureCompletion.encode_eq_ok h, not_isPrefixOf_intentDomain]
      exact Bool.false_ne_true
    rw [decode, if_neg hn, if_pos (DisclosureCompletion.isPrefixOf_encode h),
      DisclosureCompletion.decode_encode h]
    rfl

theorem length_encode_pos (h : leaf.encode = .ok bytes) : 0 < bytes.length := by
  cases leaf with
  | intent =>
    rw [DisclosureIntent.length_encode h]
    omega
  | completion =>
    rw [DisclosureCompletion.length_encode h]
    omega

end DisclosureLeaf

end Pigeonpost
