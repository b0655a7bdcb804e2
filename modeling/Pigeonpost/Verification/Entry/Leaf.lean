import Pigeonpost.Library.Outcome
import Pigeonpost.Program.Client.Audit
import Pigeonpost.Program.Storage.Tables

/-! # What leaf bytes say about an entry

Validation facts behind a leaf, and the shape of its bytes. -/

namespace Pigeonpost

open List

variable {text key out out' : Bytes} {entry : LogEntry} {payload : HandlePayload}

/-! ## Agreement of the key decoders -/

theorem decodeLowerHex_eq_some {length : ℕ} (h : decodeLowerHex length text = some key) :
    text.length = 2 * length ∧ (∀ b ∈ text, isLowerHex b = true) ∧ key = hexPairs text := by
  unfold decodeLowerHex at h
  split at h
  · simp at h
  rename_i hok
  simp only [Bool.or_eq_true, bne_iff_ne, ne_eq, any_eq_true, Bool.not_eq_true',
    not_or, not_not, not_exists, not_and] at hok
  refine ⟨hok.1, ?_, (Option.some.inj h).symm⟩
  intro b hb
  simpa using hok.2 b hb

theorem decodeLowerHex_inj {length : ℕ} {text' : Bytes} (h : decodeLowerHex length text = some key)
    (h' : decodeLowerHex length text' = some key) : text = text' := by
  obtain ⟨hlen, hl, hk⟩ := decodeLowerHex_eq_some h
  obtain ⟨hlen', hl', hk'⟩ := decodeLowerHex_eq_some h'
  rw [← hex_hexPairs text (by omega) hl, ← hex_hexPairs text' (by omega) hl', ← hk, ← hk']

theorem decodeHex32_eq_some (h : decodeHex32 text = some key) :
    text.length = 64 ∧ (∀ b ∈ text, isLowerHex b = true) ∧ key = hexPairs text :=
  decodeLowerHex_eq_some h

/-- What the log accepts as a key, the client and the database read the same way. -/
theorem decoders_agree (h : decodeHex32 text = some key) :
    parseHex32 text = some key ∧ decodeHex text 32 = some key := by
  obtain ⟨hlen, hl, rfl⟩ := decodeHex32_eq_some h
  have hd := decodeHexPairs_of_isLowerHex text hl
  have hdig : ¬(text.any fun b => !isAsciiHexdigit b) = true := by
    rw [any_eq_true]
    rintro ⟨b, hb, hbad⟩
    simp [(isLowerHex_spec b (hl b hb)).2.1] at hbad
  constructor
  · rw [parseHex32, if_neg (by simp [hlen, hdig]), hd]
    simp [hex_hexPairs text (by omega) hl]
  · rw [decodeHex, if_neg (by omega), hd]

theorem eq_zeros_of_decodeHex32
    (h : decodeHex32 text = some (replicate 32 0)) : text = replicate 64 0x30 := by
  obtain ⟨hlen, hl, hk⟩ := decodeHex32_eq_some h
  rw [← hex_hexPairs text (by omega) hl, ← hk]
  rfl

/-! ## Validation facts -/

namespace LogEntry

variable {prim : Primitives} {entry : LogEntry} {bytes : Bytes}

theorem validate_of_leafBytes (h : entry.leafBytes prim = .ok bytes) :
    entry.validate prim = .ok () := by
  simp only [leafBytes, ok_iff] at h
  obtain ⟨⟨⟩, hv, -⟩ := h
  exact hv

theorem version_of_validate (h : entry.validate prim = .ok ()) : entry.version = logEntryVersion ∨
      entry.version = legacyLogEntryVersion ∧ entry.handleBinding.isSome = true := by
  by_contra hb
  rw [not_or] at hb
  unfold validate at h
  rw [if_pos hb] at h
  simp at h

end LogEntry

theorem validateHex32_eq_ok {field : String} {value : Bytes}
    (h : validateHex32 field value = .ok ()) : ∃ key, decodeHex32 value = some key := by
  unfold validateHex32 at h
  cases hk : decodeHex32 value with
  | none => simp [hk] at h
  | some key => exact ⟨key, rfl⟩

theorem validateHandle_eq_ok {handle pubkey subject : Bytes} {version : UInt8} {tsMs : UInt64}
    (h : validateHandle handle pubkey subject version tsMs = .ok ()) :
    (version = logEntryVersion →
      ∃ parsed : Handle, Handle.parse handle = .ok parsed ∧ parsed.asPath = handle) ∧
      ∃ key, decodeHex32 pubkey = some key := by
  simp only [validateHandle, ok_iff] at h
  obtain ⟨-, -, -, h⟩ := h
  by_cases hv : version = logEntryVersion
  · rw [if_pos hv] at h
    split at h
    · simp [ok_iff] at h
    · rename_i parsed hp
      simp only [ok_iff] at h
      obtain ⟨hpath, current, rfl, ⟨⟩, hk, -⟩ := h
      exact ⟨fun _ => ⟨parsed, hp, not_not.mp hpath⟩, validateHex32_eq_ok hk⟩
  · rw [if_neg hv] at h
    simp only [ok_iff] at h
    obtain ⟨-, -, ⟨⟩, hk, -⟩ := h
    exact ⟨fun h => absurd h hv, validateHex32_eq_ok hk⟩

theorem validateCompliance_eq_ok {v : Versioned ComplianceKeyPublish}
    (h : validateCompliance v = .ok ()) :
    v.payload.keyId.validate = .ok () ∧
      (∃ key, decodeHex32 v.payload.publicKey = some key ∧ key ≠ replicate 32 0) ∧
      validateComplianceEpoch v.payload.keyId v.payload.notBeforeMs v.payload.notAfterMs =
        .ok () := by
  simp only [validateCompliance, ok_iff] at h
  obtain ⟨⟨⟩, -, ⟨⟩, hid, ⟨⟩, hh, -, hz, he⟩ := h
  obtain ⟨key, hk⟩ := validateHex32_eq_ok hh
  refine ⟨hid, ⟨key, hk, ?_⟩, he⟩
  rintro rfl
  exact hz (eq_zeros_of_decodeHex32 hk)

theorem LogEntry.handleBinding_of_validate {prim : Primitives} (h : entry.validate prim = .ok ())
    (hb : entry.handleBinding = some payload) :
    (entry.version = logEntryVersion → ∃ parsed : Handle, Handle.parse payload.handle = .ok parsed ∧
        parsed.asPath = payload.handle) ∧
      ∃ key, decodeHex32 payload.pubkey = some key := by
  unfold validate at h
  split at h
  · simp at h
  cases entry with
  | handleClaim | handleRotation =>
    cases hb
    exact validateHandle_eq_ok h
  | _ => simp [handleBinding] at hb

/-! ## Fields behind their lengths -/

def fieldBytes (field : Bytes) : Bytes := leBytes 4 field.length ++ field

theorem pushField_eq_ok {field : Bytes} (h : pushField out field = .ok out') :
    field.length < 2 ^ 32 ∧ out' = out ++ fieldBytes field := by
  unfold pushField at h
  split at h
  · rename_i hlt
    cases h
    exact ⟨hlt, by rw [fieldBytes, append_assoc]⟩
  · simp at h

theorem fieldBytes_append_inj {field field' rest rest' : Bytes} (hlt : field.length < 2 ^ 32)
    (hl' : field'.length < 2 ^ 32) (h : fieldBytes field ++ rest = fieldBytes field' ++ rest') :
    field = field' ∧ rest = rest' := by
  unfold fieldBytes at h
  rw [append_assoc, append_assoc, append_inj_of_length (by simp)] at h
  have hl := (leBytes_inj (by omega) (by omega)).mp h.1
  exact (append_inj_of_length hl).mp h.2

def HandleBody (payload : HandlePayload) (body : Bytes) : Prop :=
  payload.handle.length < 2 ^ 32 ∧ payload.pubkey.length < 2 ^ 32 ∧
    payload.subject.length < 2 ^ 32 ∧ body = fieldBytes payload.handle ++
      (fieldBytes payload.pubkey ++ fieldBytes payload.subject)

theorem pushHandle_eq_ok (payload : HandlePayload)
    (h : pushHandle out payload.handle payload.pubkey payload.subject = .ok out') :
    ∃ body, out' = out ++ body ∧ HandleBody payload body := by
  simp only [pushHandle, ok_iff] at h
  obtain ⟨out₁, h₁, out₂, h₂, h₃⟩ := h
  obtain ⟨hh, rfl⟩ := pushField_eq_ok h₁
  obtain ⟨hp, rfl⟩ := pushField_eq_ok h₂
  obtain ⟨hs, rfl⟩ := pushField_eq_ok h₃
  exact ⟨_, by simp [append_assoc], hh, hp, hs, rfl⟩

/-! ## The other payloads -/

def addAuthBytes (auth : DirectoryAddAuthentication) (signature : Bytes) : Bytes :=
  [auth.version] ++ (leBytes 8 auth.retentionDays.toNat ++ ([boolByte auth.policyOpen] ++
    (leBytes 4 auth.powFloor.toNat ++ (leBytes 8 auth.maxEventBytes.toNat ++
      (leBytes 8 auth.mutationSequence.toNat ++ signature)))))

def removeAuthBytes (auth : DirectoryRemoveAuthentication) (signature : Bytes) : Bytes :=
  [auth.version] ++ (leBytes 8 auth.drainAfter.toNat ++
    (leBytes 8 auth.mutationSequence.toNat ++ signature))

/-- The bytes of an optional authentication block: nothing, or the block with the decoded
signature of a loft. -/
def AuthBody {A : Type} (encode : A → Bytes → Bytes) (signatureOf : A → Bytes) :
    Option A → Bytes → Prop
  | none, body => body = []
  | some auth, body =>
    ∃ signature, decodeHex64 (signatureOf auth) = some signature ∧ body = encode auth signature

def AddBody (payload : DirectoryAdd) (body : Bytes) : Prop :=
  payload.endpoint.length < 2 ^ 32 ∧ payload.loftPubkey.length < 2 ^ 32 ∧
    payload.operator.length < 2 ^ 32 ∧
    ∃ auth, AuthBody addAuthBytes (·.loftSignature) payload.authentication auth ∧
      body = fieldBytes payload.endpoint ++ (fieldBytes payload.loftPubkey ++
        (fieldBytes payload.operator ++ (leBytes 8 payload.capacityBytes.toNat ++ auth)))

def RemoveBody (payload : DirectoryRemove) (body : Bytes) : Prop :=
  payload.endpoint.length < 2 ^ 32 ∧ payload.loftPubkey.length < 2 ^ 32 ∧
    payload.reason.length < 2 ^ 32 ∧
    ∃ auth, AuthBody removeAuthBytes (·.loftSignature) payload.authentication auth ∧
      body = fieldBytes payload.endpoint ++ (fieldBytes payload.loftPubkey ++
        (fieldBytes payload.reason ++ auth))

def PublishBody (payload : ComplianceKeyPublish) (body : Bytes) : Prop :=
  ∃ keyId publicKey, payload.keyId.encode = .ok keyId ∧
    decodeHex32 payload.publicKey = some publicKey ∧
    body = keyId ++ (publicKey ++ (leBytes 8 payload.notBeforeMs.toNat ++
      (leBytes 8 payload.notAfterMs.toNat ++ [payload.status.tag])))

theorem decodeLoftSignature_eq_ok {value signature : Bytes}
    (h : decodeLoftSignature value = .ok signature) : decodeHex64 value = some signature := by
  unfold decodeLoftSignature at h
  split at h
  · cases h
  · next hv => exact Except.ok.inj h ▸ hv

namespace LogEntry

/-- The kind-specific middle of a leaf. -/
def Body : LogEntry → Bytes → Prop
  | handleClaim v, body => HandleBody v.payload body
  | handleRotation v, body => HandleBody v.payload body
  | directoryAdd v, body => AddBody v.payload body
  | directoryRemove v, body => RemoveBody v.payload body
  | complianceKeyPublish v, body => PublishBody v.payload body

theorem pushPayload_eq_ok
    (h : entry.pushPayload out = .ok out') : ∃ body, out' = out ++ body ∧ entry.Body body := by
  cases entry with
  | handleClaim v | handleRotation v => exact pushHandle_eq_ok v.payload h
  | directoryAdd v | directoryRemove v =>
    simp only [pushPayload, ok_iff] at h
    obtain ⟨out₁, h₁, out₂, h₂, out₃, h₃, h⟩ := h
    obtain ⟨he, rfl⟩ := pushField_eq_ok h₁
    obtain ⟨hp, rfl⟩ := pushField_eq_ok h₂
    obtain ⟨ht, rfl⟩ := pushField_eq_ok h₃
    cases ha : v.payload.authentication with
    | none =>
      simp only [ha, ok_iff] at h
      exact ⟨_, by simp [← h], he, hp, ht, [], by rw [ha]; rfl, rfl⟩
    | some auth =>
      simp only [ha, ok_iff] at h
      obtain ⟨signature, hs, h⟩ := h
      refine ⟨_, ?_, he, hp, ht, _, by rw [ha]; exact ⟨_, decodeLoftSignature_eq_ok hs, rfl⟩, rfl⟩
      simp [← h, addAuthBytes, removeAuthBytes]
  | complianceKeyPublish v =>
    simp only [pushPayload, ok_iff] at h
    obtain ⟨keyId, hki, h⟩ := h
    split at h
    · cases h
    · rename_i publicKey hk
      simp only [ok_iff] at h
      exact ⟨_, by simp [← h], keyId, publicKey, hki, hk, rfl⟩

variable {prim : Primitives} {entry : LogEntry} {bytes : Bytes}

/-- The body of a payload between the columns of its entry. -/
def columns (entry : LogEntry) (body : Bytes) (time : ℕ) : Bytes :=
  entry.kind.tag :: (leBytes 8 entry.seq.toNat ++ (body ++ leBytes 8 time))

/-- A legacy leaf counts seconds. -/
theorem leafBytes_eq_ok (h : entry.leafBytes prim = .ok bytes) :
    ∃ body, entry.Body body ∧ (entry.version = logEntryVersion ∧
        bytes = leafDomain ++ logEntryVersion :: entry.columns body entry.tsMs.toNat ∨
      entry.version = legacyLogEntryVersion ∧ entry.tsMs.toNat % 1000 = 0 ∧
        bytes = legacyLeafDomain ++ entry.columns body (entry.tsMs.toNat / 1000)) := by
  have hv := version_of_validate (validate_of_leafBytes h)
  simp only [leafBytes, ok_iff] at h
  obtain ⟨⟨⟩, -, h⟩ := h
  rcases hv with hv | ⟨hv, hs⟩
  · rw [if_neg (by rw [hv]; decide)] at h
    simp only [ok_iff] at h
    obtain ⟨out, hpush, rfl⟩ := h
    obtain ⟨body, rfl, hb⟩ := pushPayload_eq_ok hpush
    exact ⟨body, hb, .inl ⟨hv, by simp [columns]⟩⟩
  · obtain ⟨payload, hp⟩ := Option.isSome_iff_exists.mp hs
    rw [if_pos hv] at h
    simp only [legacyLeafBytes, hp] at h
    split at h
    · simp at h
    rename_i hts
    simp only [ok_iff] at h
    obtain ⟨out, hpush, rfl⟩ := h
    obtain ⟨body, rfl, hb⟩ := pushHandle_eq_ok payload hpush
    refine ⟨body, ?_, .inr ⟨hv, not_not.mp hts, by simp [columns]⟩⟩
    cases entry with
    | handleClaim | handleRotation =>
      cases hp
      exact hb
    | _ => simp [handleBinding] at hp

end LogEntry

end Pigeonpost
