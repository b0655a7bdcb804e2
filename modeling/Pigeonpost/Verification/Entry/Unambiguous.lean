import Pigeonpost.Verification.Disclosure.Leaf
import Pigeonpost.Verification.Entry.Leaf
import Pigeonpost.Verification.Shared.SymbolicRegistry

/-! # Leaves are unambiguous

Every valid entry has leaf bytes, and no two entries share them. -/

namespace Pigeonpost

open List

variable {body rest rest' handle pubkey subject sig sig' : Bytes} {prim : Primitives}
  {version : UInt8} {tsMs : UInt64}

/-! ## Fixed-width fields -/

theorem leBytes_uint64_append_inj {a b : UInt64} :
    leBytes 8 a.toNat ++ rest = leBytes 8 b.toNat ++ rest' ↔ a = b ∧ rest = rest' := by
  have ha := a.toNat_lt
  have hb := b.toNat_lt
  rw [append_inj_of_length (by simp), leBytes_inj (by omega) (by omega), UInt64.toNat_inj]

theorem leBytes_uint32_append_inj {a b : UInt32} :
    leBytes 4 a.toNat ++ rest = leBytes 4 b.toNat ++ rest' ↔ a = b ∧ rest = rest' := by
  have ha := a.toNat_lt
  have hb := b.toNat_lt
  rw [append_inj_of_length (by simp), leBytes_inj (by omega) (by omega), UInt32.toNat_inj]

theorem byte_append_inj {a b : UInt8} : [a] ++ rest = [b] ++ rest' ↔ a = b ∧ rest = rest' := by
  simp

theorem boolByte_inj {a b : Bool} : boolByte a = boolByte b ↔ a = b := by
  cases a <;> cases b <;> decide

theorem ComplianceKeyStatus.tag_inj {a b : ComplianceKeyStatus} : a.tag = b.tag ↔ a = b := by
  cases a <;> cases b <;> decide

/-! ## Payloads -/

theorem addAuthBytes_inj {a b : DirectoryAddAuthentication}
    (ha : decodeHex64 a.loftSignature = some sig) (hb : decodeHex64 b.loftSignature = some sig')
    (h : addAuthBytes a sig = addAuthBytes b sig') : a = b := by
  simp only [addAuthBytes, byte_append_inj, leBytes_uint64_append_inj, leBytes_uint32_append_inj,
    boolByte_inj] at h
  obtain ⟨hv, hr, hp, hpow, hm, hseq, rfl⟩ := h
  have hs := decodeLowerHex_inj ha hb
  cases a
  cases b
  simp_all

theorem removeAuthBytes_inj {a b : DirectoryRemoveAuthentication}
    (ha : decodeHex64 a.loftSignature = some sig) (hb : decodeHex64 b.loftSignature = some sig')
    (h : removeAuthBytes a sig = removeAuthBytes b sig') : a = b := by
  simp only [removeAuthBytes, byte_append_inj, leBytes_uint64_append_inj] at h
  obtain ⟨hv, hd, hseq, rfl⟩ := h
  have hs := decodeLowerHex_inj ha hb
  cases a
  cases b
  simp_all

/-- An authentication block is not empty, so its bytes tell whether it is there. -/
theorem AuthBody.unique {A : Type} {encode : A → Bytes → Bytes} {signatureOf : A → Bytes}
    (hne : ∀ auth signature, encode auth signature ≠ [])
    (hinj : ∀ {a b sig sig'}, decodeHex64 (signatureOf a) = some sig →
      decodeHex64 (signatureOf b) = some sig' → encode a sig = encode b sig' → a = b)
    {auth auth' : Option A} (h : AuthBody encode signatureOf auth body)
    (h' : AuthBody encode signatureOf auth' body) : auth = auth' := by
  cases auth with
  | none =>
    cases auth' with
    | none => rfl
    | some b =>
      obtain ⟨sig', -, hb⟩ := h'
      exact absurd (hb.symm.trans h) (hne b sig')
  | some a =>
    obtain ⟨sig, hs, rfl⟩ := h
    cases auth' with
    | none => exact absurd h' (hne a sig)
    | some =>
      obtain ⟨sig', hs', hb⟩ := h'
      exact congrArg some (hinj hs hs' hb)

theorem HandleBody.unique {payload payload' : HandlePayload} (h : HandleBody payload body)
    (h' : HandleBody payload' body) : payload = payload' := by
  obtain ⟨hh, hp, hs, rfl⟩ := h
  obtain ⟨hh', hp', hs', heq⟩ := h'
  obtain ⟨h₁, heq⟩ := fieldBytes_append_inj hh hh' heq
  obtain ⟨h₂, heq⟩ := fieldBytes_append_inj hp hp' heq
  obtain ⟨h₃, -⟩ := fieldBytes_append_inj hs hs' (congrArg (· ++ []) heq)
  exact HandlePayload.mk.injEq .. ▸ ⟨h₁, h₂, h₃⟩

theorem AddBody.unique {payload payload' : DirectoryAdd} (h : AddBody payload body)
    (h' : AddBody payload' body) : payload = payload' := by
  obtain ⟨he, hp, ho, auth, ha, rfl⟩ := h
  obtain ⟨he', hp', ho', auth', ha', heq⟩ := h'
  obtain ⟨h₁, heq⟩ := fieldBytes_append_inj he he' heq
  obtain ⟨h₂, heq⟩ := fieldBytes_append_inj hp hp' heq
  obtain ⟨h₃, heq⟩ := fieldBytes_append_inj ho ho' heq
  obtain ⟨h₄, rfl⟩ := leBytes_uint64_append_inj.mp heq
  have h₅ := ha.unique (by simp [addAuthBytes]) addAuthBytes_inj ha'
  cases payload
  simp_all

theorem RemoveBody.unique {payload payload' : DirectoryRemove}
    (h : RemoveBody payload body) (h' : RemoveBody payload' body) : payload = payload' := by
  obtain ⟨he, hp, hr, auth, ha, rfl⟩ := h
  obtain ⟨he', hp', hr', auth', ha', heq⟩ := h'
  obtain ⟨h₁, heq⟩ := fieldBytes_append_inj he he' heq
  obtain ⟨h₂, heq⟩ := fieldBytes_append_inj hp hp' heq
  obtain ⟨h₃, rfl⟩ := fieldBytes_append_inj hr hr' heq
  have h₄ := ha.unique (by simp [removeAuthBytes]) removeAuthBytes_inj ha'
  cases payload
  simp_all

theorem length_hexPairs_of_decode {length : ℕ} {text key : Bytes}
    (h : decodeLowerHex length text = some key) : key.length = length := by
  obtain ⟨hlen, hl, rfl⟩ := decodeLowerHex_eq_some h
  have hh := congrArg List.length (hex_hexPairs text (by omega) hl)
  rw [length_hex] at hh
  omega

theorem PublishBody.unique {payload payload' : ComplianceKeyPublish}
    (h : PublishBody payload body) (h' : PublishBody payload' body) : payload = payload' := by
  obtain ⟨keyId, publicKey, hki, hk, rfl⟩ := h
  obtain ⟨keyId', publicKey', hki', hk', heq⟩ := h'
  obtain ⟨hid, heq⟩ := ComplianceKeyId.encode_append_inj hki hki' heq
  have hlk : publicKey.length = publicKey'.length := by
    rw [length_hexPairs_of_decode hk, length_hexPairs_of_decode hk']
  rw [append_inj_of_length hlk, leBytes_uint64_append_inj, leBytes_uint64_append_inj,
    cons.injEq, ComplianceKeyStatus.tag_inj] at heq
  obtain ⟨rfl, hb, ha, hs, -⟩ := heq
  have ht := decodeLowerHex_inj hk hk'
  cases payload
  cases payload'
  simp_all

/-! ## Every valid entry has a leaf -/

theorem pushField_of_lt {field : Bytes} (h : field.length < 2 ^ 32) (out : Bytes) :
    pushField out field = .ok (out ++ fieldBytes field) := by
  rw [pushField, if_pos h, fieldBytes, append_assoc]

theorem validateHandle_lengths (h : validateHandle handle pubkey subject version tsMs = .ok ()) :
    handle.length ≤ 256 ∧ subject.length ≤ 512 ∧
      (version = legacyLogEntryVersion → tsMs.toNat % 1000 = 0) := by
  simp only [validateHandle, ok_iff] at h
  obtain ⟨-, hts, hh, h⟩ := h
  simp only [not_or, not_and, not_not, not_lt] at hts hh
  refine ⟨hh.2.1, ?_, hts⟩
  by_cases hv : version = logEntryVersion
  · rw [if_pos hv] at h
    split at h
    · simp [ok_iff] at h
    simp only [ok_iff] at h
    obtain ⟨-, _, -, _, -, h⟩ := h
    split at h
    · cases h
    simp only [ok_iff, not_or, not_lt] at h
    exact h.1.2.2.1
  · simp only [if_neg hv, ok_iff] at h
    obtain ⟨_, -, _, -, h⟩ := h
    split at h
    · cases h
    simp only [ok_iff, not_or, not_lt] at h
    exact h.1.2.2.1

theorem exists_pushHandle (h : validateHandle handle pubkey subject version tsMs = .ok ())
    (out : Bytes) : ∃ out', pushHandle out handle pubkey subject = .ok out' := by
  obtain ⟨hh, hs, -⟩ := validateHandle_lengths h
  obtain ⟨-, key, hk⟩ := validateHandle_eq_ok h
  have hp := (decodeHex32_eq_some hk).1
  rw [pushHandle, pushField_of_lt (by omega), ok_bind, pushField_of_lt (by omega), ok_bind,
    pushField_of_lt (by omega)]
  exact ⟨_, rfl⟩

theorem validateEndpoint_length {endpoint : Bytes}
    (h : validateEndpoint prim endpoint = .ok ()) : endpoint.length ≤ 2048 := by
  unfold validateEndpoint at h
  split at h
  · simp at h
  split at h
  · simp at h
  · rename_i hok
    simp only [Bool.or_eq_true, decide_eq_true_eq, not_or, not_lt] at hok
    exact hok.1.1.1.1.1.1.1.1

theorem validateEd25519Key_length {field : String} {value key : Bytes}
    (h : validateEd25519Key prim field value = .ok key) : value.length = 64 := by
  unfold validateEd25519Key at h
  split at h
  · cases h
  · next hv => exact (decodeHex32_eq_some hv).1

theorem exists_pushAdd {v : Versioned DirectoryAdd} (h : validateDirectoryAdd prim v = .ok ())
    (out : Bytes) : ∃ out', (LogEntry.directoryAdd v).pushPayload out = .ok out' := by
  simp only [validateDirectoryAdd, ok_iff] at h
  obtain ⟨_, -, _, he, key, hk, -, h⟩ := h
  have hel := validateEndpoint_length he
  have hkl := validateEd25519Key_length hk
  unfold LogEntry.pushPayload
  cases ha : v.payload.authentication with
  | none =>
    simp only [ha] at h ⊢
    split at h
    · simp at h
    rename_i ho
    rw [pushField_of_lt (by omega), ok_bind, pushField_of_lt (by omega), ok_bind,
      pushField_of_lt (by omega)]
    exact ⟨_, rfl⟩
  | some =>
    simp only [ha, ok_iff, not_or, not_lt] at h
    simp only [ha]
    obtain ⟨-, ⟨ho, -⟩, -, -, signature, hs, -⟩ := h
    rw [pushField_of_lt (by omega), ok_bind, pushField_of_lt (by omega), ok_bind,
      pushField_of_lt (by omega), hs]
    exact ⟨_, rfl⟩

theorem exists_pushRemove {v : Versioned DirectoryRemove}
    (h : validateDirectoryRemove prim v = .ok ()) (out : Bytes) :
    ∃ out', (LogEntry.directoryRemove v).pushPayload out = .ok out' := by
  simp only [validateDirectoryRemove, ok_iff] at h
  obtain ⟨_, -, _, he, key, hk, h⟩ := h
  have hel := validateEndpoint_length he
  have hkl := validateEd25519Key_length hk
  unfold LogEntry.pushPayload
  cases ha : v.payload.authentication with
  | none =>
    simp only [ha] at h ⊢
    split at h
    · simp at h
    rename_i hr
    rw [pushField_of_lt (by omega), ok_bind, pushField_of_lt (by omega), ok_bind,
      pushField_of_lt (by omega)]
    exact ⟨_, rfl⟩
  | some =>
    simp only [ha, ok_iff, not_or, not_not] at h
    simp only [ha]
    obtain ⟨⟨-, hr⟩, signature, hs, -⟩ := h
    have hrl : v.payload.reason.length < 2 ^ 32 := by rw [hr]; decide
    rw [pushField_of_lt (by omega), ok_bind, pushField_of_lt (by omega), ok_bind,
      pushField_of_lt hrl, hs]
    exact ⟨_, rfl⟩

theorem exists_pushPublish {v : Versioned ComplianceKeyPublish} (h : validateCompliance v = .ok ())
    (out : Bytes) : ∃ out', (LogEntry.complianceKeyPublish v).pushPayload out = .ok out' := by
  obtain ⟨hid, ⟨key, hk, -⟩, -⟩ := validateCompliance_eq_ok h
  unfold LogEntry.pushPayload
  simp only [ComplianceKeyId.encode, hid, hk, ok_bind]
  exact ⟨_, rfl⟩

namespace LogEntry

variable {prim : Primitives} {entry entry' : LogEntry}

section

variable (h : entry.validate prim = .ok ())

include h

theorem validate_kind :
    match entry with
    | handleClaim v | handleRotation v =>
      validateHandle v.payload.handle v.payload.pubkey v.payload.subject v.version v.tsMs = .ok ()
    | directoryAdd v => validateDirectoryAdd prim v = .ok ()
    | directoryRemove v => validateDirectoryRemove prim v = .ok ()
    | complianceKeyPublish v => validateCompliance v = .ok () := by
  unfold validate at h
  split at h
  · simp at h
  · cases entry <;> exact h

theorem exists_pushPayload (out : Bytes) : ∃ out', entry.pushPayload out = .ok out' := by
  have hk := validate_kind h
  cases entry with
  | handleClaim | handleRotation => exact exists_pushHandle hk out
  | directoryAdd => exact exists_pushAdd hk out
  | directoryRemove => exact exists_pushRemove hk out
  | complianceKeyPublish => exact exists_pushPublish hk out

theorem exists_legacyLeafBytes (hver : entry.version = legacyLogEntryVersion)
    (hh : entry.handleBinding.isSome = true) : ∃ bytes, entry.legacyLeafBytes = .ok bytes := by
  obtain ⟨payload, hp⟩ := Option.isSome_iff_exists.mp hh
  have hv : validateHandle payload.handle payload.pubkey payload.subject entry.version
      entry.tsMs = .ok () := by
    have hk := validate_kind h
    cases entry with
    | handleClaim | handleRotation =>
      cases hp
      exact hk
    | _ => simp [handleBinding] at hp
  obtain ⟨-, -, hts⟩ := validateHandle_lengths hv
  obtain ⟨out, ho⟩ := exists_pushHandle hv
    (legacyLeafDomain ++ [entry.kind.tag] ++ leBytes 8 entry.seq.toNat)
  simp only [legacyLeafBytes, hp]
  rw [if_neg (not_not.mpr (hts hver)), ho, ok_bind]
  exact ⟨_, rfl⟩

theorem exists_leafBytes : ∃ bytes, entry.leafBytes prim = .ok bytes := by
  rw [leafBytes, h, ok_bind]
  rcases version_of_validate h with hv | ⟨hv, hh⟩
  · rw [if_neg (by rw [hv]; decide)]
    obtain ⟨out, ho⟩ := exists_pushPayload h
      (leafDomain ++ [logEntryVersion, entry.kind.tag] ++ leBytes 8 entry.seq.toNat)
    simp only [ho, ok_bind]
    exact ⟨_, rfl⟩
  · rw [if_pos hv]
    exact exists_legacyLeafBytes h hv hh

end

/-! ## Equal bytes, equal entries -/

/-- An entry is its kind, its columns and its payload. -/
theorem Body.unique (h : entry.Body body) (h' : entry'.Body body)
    (hk : entry.kind = entry'.kind) (hv : entry.version = entry'.version)
    (hs : entry.seq = entry'.seq) (hts : entry.tsMs = entry'.tsMs) : entry = entry' := by
  have hmk : ∀ {T : Type} {v v' : Versioned T}, v.version = v'.version → v.seq = v'.seq →
      v.tsMs = v'.tsMs → v.payload = v'.payload → v = v' := by
    intro T v v' hv hs hts hp
    cases v
    simp_all
  cases entry with
  | handleClaim =>
    cases entry' with
    | handleClaim => exact congrArg _ (hmk hv hs hts (HandleBody.unique h h'))
    | _ => cases hk
  | handleRotation =>
    cases entry' with
    | handleRotation => exact congrArg _ (hmk hv hs hts (HandleBody.unique h h'))
    | _ => cases hk
  | directoryAdd =>
    cases entry' with
    | directoryAdd => exact congrArg _ (hmk hv hs hts (AddBody.unique h h'))
    | _ => cases hk
  | directoryRemove =>
    cases entry' with
    | directoryRemove => exact congrArg _ (hmk hv hs hts (RemoveBody.unique h h'))
    | _ => cases hk
  | complianceKeyPublish =>
    cases entry' with
    | complianceKeyPublish => exact congrArg _ (hmk hv hs hts (PublishBody.unique h h'))
    | _ => cases hk

theorem tag_injective {kind kind' : EntryKind} (h : kind.tag = kind'.tag) : kind = kind' := by
  cases kind <;> cases kind' <;> first | rfl | exact absurd h (by decide)

theorem columns_inj {body' : Bytes} {time time' : ℕ}
    (h : entry.columns body time = entry'.columns body' time') (ht : time < 2 ^ 64)
    (ht' : time' < 2 ^ 64) :
    entry.kind = entry'.kind ∧ entry.seq = entry'.seq ∧ body = body' ∧ time = time' := by
  simp only [columns, cons.injEq, leBytes_uint64_append_inj] at h
  obtain ⟨hk, hs, h⟩ := h
  obtain ⟨hb, htime⟩ := append_inj' h (by simp)
  exact ⟨tag_injective hk, hs, hb, (leBytes_inj (by omega) (by omega)).mp htime⟩

/-- The two leaf domains part before the shorter one ends. -/
theorem leafDomain_append_ne (rest rest' : Bytes) :
    leafDomain ++ rest ≠ legacyLeafDomain ++ rest' := by
  intro heq
  have ht := congrArg (take 23) heq
  simp [leafDomain, legacyLeafDomain, ascii] at ht

theorem leafBytes_inj {bytes : Bytes} (h : entry.leafBytes prim = .ok bytes)
    (h' : entry'.leafBytes prim = .ok bytes) : entry = entry' := by
  obtain ⟨body, hb, hl⟩ := leafBytes_eq_ok h
  obtain ⟨body', hb', hl'⟩ := leafBytes_eq_ok h'
  have hlt := entry.tsMs.toNat_lt
  have hlt' := entry'.tsMs.toNat_lt
  rcases hl with ⟨hv, rfl⟩ | ⟨hv, hts, rfl⟩
  · rcases hl' with ⟨hv', heq⟩ | ⟨-, -, heq⟩
    · rw [append_cancel_left_eq, cons.injEq] at heq
      obtain ⟨hk, hs, rfl, ht⟩ := columns_inj heq.2 hlt hlt'
      exact hb.unique hb' hk (hv.trans hv'.symm) hs (UInt64.toNat_inj.mp ht)
    · exact absurd heq (leafDomain_append_ne _ _)
  · rcases hl' with ⟨-, heq⟩ | ⟨hv', hts', heq⟩
    · exact absurd heq.symm (leafDomain_append_ne _ _)
    · obtain ⟨hk, hs, rfl, ht⟩ := columns_inj (append_cancel_left heq) (by omega) (by omega)
      exact hb.unique hb' hk (hv.trans hv'.symm) hs (UInt64.toNat_inj.mp (by omega))

/-- A valid entry has leaf bytes, and an entry with the same leaf bytes is the same entry,
whatever their kinds and versions. -/
theorem leafBytes_unambiguous (h : entry.validate prim = .ok ()) :
    (∃ bytes, entry.leafBytes prim = .ok bytes) ∧
      (entry.leafBytes prim = entry'.leafBytes prim → entry = entry') := by
  obtain ⟨bytes, hb⟩ := exists_leafBytes h
  exact ⟨⟨bytes, hb⟩, fun hsame => leafBytes_inj hb (hsame.symm.trans hb)⟩

theorem leafBytes_aliceClaim_ne :
    aliceClaim.leafBytes symbolicPrimitives ≠ aliceRotation.leafBytes symbolicPrimitives := by
  intro heq
  have hv : aliceClaim.validate symbolicPrimitives = .ok () := rfl
  have hs := (leafBytes_unambiguous hv).2 heq
  cases hs

end LogEntry

end Pigeonpost
