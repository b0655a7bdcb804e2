import Pigeonpost.Program.Record
import Mathlib.Algebra.Order.BigOperators.Group.List

/-! # Stored texts

Addresses have one length, and a rotation record is never long and is read back from its
text. -/

namespace Pigeonpost

open Json

theorem length_byteArray_vector_le {n : ℕ} (v : Vector UInt8 (n + 1)) :
    (byteArray v.toList).length ≤ 4 * (n + 1) + 1 := by
  have hne : v.toList ≠ [] := List.ne_nil_of_length_eq_add_one v.length_toList
  simpa using length_byteArray_le hne

theorem selfDelimiting_vector (n : ℕ) :
    Json.SelfDelimiting fun v : Vector UInt8 n => byteArray v.toList :=
  selfDelimiting_byteArray.comp fun _ _ => Vector.toList_inj.mp

open List

/-! ## Addresses -/

namespace Base32

theorem length_drain (buffer : UInt16) (bits : ℕ) :
    (drain buffer bits).1.length = bits / 5 ∧ (drain buffer bits).2 = bits % 5 := by
  fun_induction drain buffer bits with
  | case1 _ ih =>
    simp only [length_cons, ih]
    omega
  | case2 bits hs =>
    have hlt : bits < 5 := by
      by_contra hge
      exact hs (bits - 5) (by omega)
    simp only [length_nil]
    omega

/-- Every five bits give a character, and what is left one more. -/
theorem length_encodeFrom (buffer : UInt16) {bits : ℕ} (hb : bits < 5) (input : Bytes) :
    (encodeFrom buffer bits input).length = (bits + 8 * input.length + 4) / 5 := by
  induction input generalizing buffer bits with
  | nil =>
    rw [encodeFrom]
    split
    · simp only [length_cons, length_nil]
      omega
    · simp only [length_nil]
      omega
  | cons byte _ ih =>
    obtain ⟨hc, hl⟩ := length_drain (buffer <<< 8 ||| byte.toUInt16) (bits + 8)
    rw [encodeFrom, length_append, ih _ (by omega), length_cons]
    omega

end Base32

theorem Address.length_text (address : Address) : address.text.length = 29 := by
  obtain ⟨raw, hr, ht⟩ := address.canonical
  rw [ht, length_append, Base32.encode, Base32.length_encodeFrom 0 (by decide), hr]
  decide

/-! ## Rotation records -/

theorem RotationRecord.length_toJson_le (record : RotationRecord) :
    record.toJson.length ≤ 1109 := by
  have hv := length_number_byte record.version
  have hf := length_byteArray_vector_le record.fromPubkey
  have hto := length_byteArray_vector_le record.toPubkey
  have hn := length_byteArray_vector_le record.nextSuccessorHash
  have hs := length_number_u64 record.seq
  have ha := length_number_u64 record.activatedAt
  have hg := length_number_u64 record.graceUntil
  have ho := length_byteArray_vector_le record.outgoingSignature
  have hinc := length_byteArray_vector_le record.incomingSignature
  rw [RotationRecord.toJson, length_object]
  simp only [map_cons, map_nil, sum_cons, sum_nil, length_member,
    length_cons, length_nil, ascii, String.reduceToList]
  omega

theorem selfDelimiting_u64 : Json.SelfDelimiting fun n : UInt64 => number n.toNat :=
  selfDelimiting_number.comp fun _ _ => UInt64.toNat_inj.mp

theorem selfDelimiting_u8 : Json.SelfDelimiting fun n : UInt8 => number n.toNat :=
  selfDelimiting_number.comp fun _ _ => UInt8.toNat_inj.mp

theorem RotationRecord.toJson_injective : Function.Injective RotationRecord.toJson := by
  rintro ⟨version, source, target, next, seq, activated, grace, outgoing, incoming⟩
    ⟨version', source', target', next', seq', activated', grace', outgoing', incoming'⟩ h
  simp only [RotationRecord.toJson, object, separated, intercalate, intersperse, flatten_cons,
    flatten_nil, append_nil, append_assoc, cons_append, nil_append, cons.injEq, true_and] at h
  obtain ⟨rfl, h₁⟩ := selfDelimiting_u8.next_member h
  obtain ⟨rfl, h₂⟩ := (selfDelimiting_vector 32).next_member h₁
  obtain ⟨rfl, h₃⟩ := (selfDelimiting_vector 32).next_member h₂
  obtain ⟨rfl, h₄⟩ := (selfDelimiting_vector 32).next_member h₃
  obtain ⟨rfl, h₅⟩ := selfDelimiting_u64.next_member h₄
  obtain ⟨rfl, h₆⟩ := selfDelimiting_u64.next_member h₅
  obtain ⟨rfl, h₇⟩ := selfDelimiting_u64.next_member h₆
  obtain ⟨rfl, h₈⟩ := (selfDelimiting_vector 64).next_member h₇
  obtain ⟨rfl, -⟩ := (selfDelimiting_vector 64).split_member (stops_brace []) (stops_brace []) h₈
  rfl

/-! ## Envelopes -/

variable {wrap : Wrap} {prim : Primitives}

/-- The padding alone makes the ciphertext of a public envelope long. -/
theorem Wrap.length_ciphertext_of_verifyPublic (h : wrap.verifyPublic prim = .ok ()) :
    wrap.version = envelopeVersion ∧ 272 ≤ wrap.ciphertext.length := by
  simp only [Wrap.verifyPublic, ok_iff] at h
  obtain ⟨hv, _, -, _, -, hl, -⟩ := h
  refine ⟨not_not.mp hv, ?_⟩
  unfold padBlock at hl
  omega

theorem Wrap.ciphertextJson_eq_some {ciphertext : Bytes} (hv : wrap.version = envelopeVersion)
    (h : wrap.ciphertextJson = some ciphertext) : ciphertext = plainText (hex wrap.ciphertext) := by
  rw [Wrap.ciphertextJson, if_neg (by rw [hv]; decide)] at h
  split at h
  · cases h
  · exact (Option.some.inj h).symm

variable {attribution : AttributionBlock → Bytes} {blob : Bytes}

theorem Wrap.le_length_toJson (h : wrap.verifyPublic prim = .ok ())
    (hj : wrap.toJson attribution = some blob) : 559 ≤ blob.length := by
  obtain ⟨hv, hl⟩ := Wrap.length_ciphertext_of_verifyPublic h
  simp only [Wrap.toJson, bind, Option.bind_eq_some_iff, pure, Option.some.injEq] at hj
  obtain ⟨ciphertext, hc, rfl⟩ := hj
  have hh := Wrap.ciphertextJson_eq_some hv hc
  have hm : 559 ≤ (member "ciphertext" ciphertext).length := by
    rw [length_member, hh, length_plainText, length_hex]
    simp only [ascii, String.reduceToList, map_cons, map_nil, length_cons, length_nil]
    omega
  rw [length_object, map_append, sum_append]
  simp only [map_cons, map_nil, sum_cons, sum_nil]
  omega

theorem hex_injective : Function.Injective hex := by
  intro a b h
  rw [← hexPairs_hex a, h, hexPairs_hex]

theorem quote_notMem_hex (bytes : Bytes) : 0x22 ∉ hex bytes :=
  fun hm => absurd (isLowerHex_of_mem_hex hm) (by decide)

theorem selfDelimiting_hex : Json.SelfDelimiting fun bytes => plainText (hex bytes) :=
  selfDelimiting_plainText hex_injective quote_notMem_hex

/-- The attribution member, or the end of the object. -/
def attributionEnd (attribution : AttributionBlock → Bytes) : Option AttributionBlock → Bytes
  | none => [0x7d]
  | some block => 0x2c :: (Json.member "attribution" (attribution block) ++ [0x7d])

theorem attributionEnd_injective (h : Function.Injective attribution) :
    Function.Injective (attributionEnd attribution) := by
  rintro (_ | a) (_ | b) heq
  · rfl
  · cases (cons.inj heq).1
  · cases (cons.inj heq).1
  · have ht := append_cancel_right (cons.inj heq).2
    rw [h (cons.inj (append_cancel_left ht)).2]

theorem stops_attributionEnd (attribution : AttributionBlock → Bytes)
    (block : Option AttributionBlock) : Json.Stops (attributionEnd attribution block) := by
  cases block with
  | none => exact stops_brace _
  | some => exact stops_comma _

theorem Wrap.toJson_eq_some (hv : wrap.version = envelopeVersion)
    (h : wrap.toJson attribution = some blob) :
    blob = 0x7b :: (member "version" (number wrap.version.toNat) ++
      0x2c :: (member "ephemeral_pubkey" (byteArray wrap.ephemeralPubkey.toList) ++
      0x2c :: (member "recipient" (byteArray wrap.recipient.toList) ++
      0x2c :: (member "nonce" (byteArray wrap.nonce.toList) ++
      0x2c :: (member "ciphertext" (plainText (hex wrap.ciphertext)) ++
      0x2c :: (member "created_at" (number wrap.createdAt.toNat) ++
      0x2c :: (member "signature" (byteArray wrap.signature.toList) ++
      0x2c :: (member "pow_nonce" (number wrap.powNonce.toNat) ++
        attributionEnd attribution wrap.attribution)))))))) := by
  simp only [Wrap.toJson, bind, Option.bind_eq_some_iff, pure, Option.some.injEq] at h
  obtain ⟨ciphertext, hc, rfl⟩ := h
  have hh := Wrap.ciphertextJson_eq_some hv hc
  rw [hh]
  cases hb : wrap.attribution with
  | none | some => simp [object, separated, attributionEnd]

/-- An envelope of the current version is determined by its text. -/
theorem Wrap.toJson_inj (ha : Function.Injective attribution) {wrap' : Wrap}
    (hv : wrap.version = envelopeVersion) (hv' : wrap'.version = envelopeVersion)
    (h : wrap.toJson attribution = some blob) (h' : wrap'.toJson attribution = some blob) :
    wrap = wrap' := by
  have heq := (Wrap.toJson_eq_some hv h).symm.trans (Wrap.toJson_eq_some hv' h')
  cases wrap
  obtain ⟨rfl, h₁⟩ := selfDelimiting_u8.next_member (cons.inj heq).2
  obtain ⟨rfl, h₂⟩ := (selfDelimiting_vector 32).next_member h₁
  obtain ⟨rfl, h₃⟩ := (selfDelimiting_vector 32).next_member h₂
  obtain ⟨rfl, h₄⟩ := (selfDelimiting_vector 24).next_member h₃
  obtain ⟨rfl, h₅⟩ := selfDelimiting_hex.next_member h₄
  obtain ⟨rfl, h₆⟩ := selfDelimiting_u64.next_member h₅
  obtain ⟨rfl, h₇⟩ := (selfDelimiting_vector 64).next_member h₆
  obtain ⟨rfl, h₈⟩ := selfDelimiting_u64.split_member (stops_attributionEnd _ _)
    (stops_attributionEnd _ _) h₇
  obtain rfl := attributionEnd_injective ha h₈
  rfl

end Pigeonpost
