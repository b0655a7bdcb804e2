import Pigeonpost.Library.Outcome
import Pigeonpost.Program.Checkpoint

/-! # Texts of signed tree heads -/

namespace Pigeonpost

open Base64 List

theorem cosignatureMessage_inj {t t' : ℕ} {body body' : Bytes} :
    cosignatureMessage t body = cosignatureMessage t' body' ↔ t = t' ∧ body = body' := by
  have hd := fun n => not_mem_decimal (b := newline) rfl n
  simp only [cosignatureMessage, append_assoc, append_cancel_left_eq, singleton_append]
  rw [append_sep_inj (hd t) (hd t'), decimal_injective.eq_iff]

/-! ## Signature lines -/

/-- What a name must not contain to stand in a signature line. -/
structure LineName (name : Bytes) : Prop where
  newline : newline ∉ name
  carriageReturn : 0x0d ∉ name
  space : space ∉ name

/-- A signature line without its newline. -/
def signatureText (name blob : Bytes) : Bytes :=
  signatureStart ++ name ++ [space] ++ Base64.encode blob

theorem signatureLine_eq (name blob : Bytes) :
    signatureLine name blob = signatureText name blob ++ [newline] := rfl

variable {name : Bytes}

theorem not_mem_signatureText {b : UInt8} (hs : b ∉ signatureStart ++ [space]) (hn : b ∉ name)
    (hc : isBase64Byte b = false) (blob : Bytes) : b ∉ signatureText name blob := by
  simp only [mem_append, not_or] at hs
  simp only [signatureText, mem_append, not_or]
  exact ⟨⟨⟨hs.1, hn⟩, hs.2⟩, not_mem_encode hc blob⟩

theorem lines_signatureLine (hn : LineName name) (blob rest : Bytes) :
    lines (signatureLine name blob ++ rest) = signatureText name blob :: lines rest := by
  rw [signatureLine_eq, append_assoc, singleton_append, newline,
    lines_append_newline (not_mem_signatureText (by decide) hn.newline rfl blob),
    stripReturn_eq_self (not_mem_signatureText (by decide) hn.carriageReturn rfl blob)]

/-- The line's own name reads its blob back, any other reads nothing. -/
theorem signatureBlob_signatureText (hn : LineName name) (expected blob : Bytes) :
    signatureBlob expected (signatureText name blob) =
      if name = expected then some blob else none := by
  have hs : (encode blob).contains space = false := by
    simpa using not_mem_encode (b := space) rfl blob
  rw [signatureBlob, signatureText, append_assoc, append_assoc, stripStart_append]
  simp only [singleton_append, splitOnce_append hn.space, hs, Bool.false_eq_true,
    or_false, decode_encode, ne_eq, ite_not]

/-! ## Documented behaviour of the primitives -/

/-- Ed25519 accepts what it signed, and lengths are fixed. -/
structure Signatures.Lawful (sigs : Signatures) : Prop where
  verifyStrict_sign : ∀ key message,
    sigs.verifyStrict (sigs.verifyingKey key) message (sigs.sign key message) = true
  length_sign : ∀ key message, (sigs.sign key message).length = 64
  length_sha256 : ∀ data, (sigs.sha256 data).length = 32

def Hashes32 (H : Type) [HashBytes H] : Prop := ∀ hash : H, (HashBytes.toBytes hash).length = 32

theorem length_namedKeyHash {sigs : Signatures} (hs : sigs.Lawful) (alg : UInt8)
    (name key : Bytes) : (namedKeyHash sigs alg name key).length = 4 := by
  simp [namedKeyHash, hs.length_sha256]

namespace Checkpoint

variable {H : Type} [HashBytes H] {sigs : Signatures}
variable {checkpoint : Checkpoint H} {text : Bytes}

/-! ## Bodies -/

/-- The body without its last newline, which is what a reader of a note cuts out. -/
def fields (checkpoint : Checkpoint H) : Bytes :=
  checkpoint.origin ++ newline :: (decimal checkpoint.size ++ newline ::
    Base64.encode (HashBytes.toBytes checkpoint.root))

theorem body_eq (checkpoint : Checkpoint H) : checkpoint.body = checkpoint.fields ++ [newline] := by
  simp [body, fields]

theorem lines_fields (ho : newline ∉ checkpoint.origin) :
    lines checkpoint.fields = stripReturn checkpoint.origin :: decimal checkpoint.size ::
      lines (encode (HashBytes.toBytes checkpoint.root)) := by
  rw [fields, newline, lines_append_newline ho, lines_append_newline (not_mem_decimal rfl _),
    stripReturn_eq_self (not_mem_decimal rfl _)]

theorem parseBody_eq_ok : parseBody text = .ok checkpoint ↔ ∃ sizeText rootB64,
      lines text = [checkpoint.origin, sizeText, rootB64] ∧
      parseUnsigned (2 ^ 64) sizeText = some checkpoint.size ∧
      (decode rootB64).bind HashBytes.ofBytes = some checkpoint.root := by
  rw [parseBody]
  constructor
  · intro h
    split at h
    · cases h
    · cases h
    rename_i origin sizeText rest hl
    split at h
    · cases h
    rename_i size hs
    split at h
    · cases h
    rename_i rootB64 extra
    split at h
    · cases h
    rename_i he
    split at h
    · cases h
    rename_i root hr
    rw [Except.ok.injEq] at h
    subst h
    have hn : extra = [] := by simpa using he
    exact ⟨sizeText, rootB64, by rw [hl, hn], hs, hr⟩
  · rintro ⟨sizeText, rootB64, hl, hs, hr⟩
    simp only [hl, hs, hr]
    rfl

theorem newline_not_mem_origin
    (h : parseBody text = .ok checkpoint) : newline ∉ checkpoint.origin := by
  obtain ⟨sizeText, rootB64, hl, -⟩ := parseBody_eq_ok.mp h
  have hm : checkpoint.origin ∈ lines text := by simp [hl]
  exact not_mem_of_mem_lines hm

/-- Whoever reads back a rendered body gets its size and root. -/
theorem parseBody_fields {parsed : Checkpoint H}
    (ho : newline ∉ checkpoint.origin) (h : parseBody checkpoint.fields = .ok parsed) :
    parsed.size = checkpoint.size ∧ parsed.root = checkpoint.root := by
  obtain ⟨sizeText, rootB64, hl, hs, hroot⟩ := parseBody_eq_ok.mp h
  rw [lines_fields ho] at hl
  simp only [cons.injEq] at hl
  obtain ⟨-, rfl, hr⟩ := hl
  have hne : encode (HashBytes.toBytes checkpoint.root) ≠ [] := by
    intro hn
    simp [hn] at hr
  rw [lines_of_no_newline (not_mem_encode rfl _) hne, cons.injEq] at hr
  rw [← hr.1, decode_encode, Option.bind_some, HashBytes.ofBytes_toBytes] at hroot
  rw [parseUnsigned_decimal_eq] at hs
  split at hs
  · exact ⟨(Option.some.inj hs).symm, (Option.some.inj hroot).symm⟩
  · cases hs

/-! ## Verified notes -/

theorem verify_eq_ok {key : Bytes} :
    verify sigs text key = .ok checkpoint ↔ text.length ≤ maxCheckpointBytes ∧
      ∃ body signatures, splitOnceAt [newline, newline] text = some (body, signatures) ∧
        parseBody body = .ok checkpoint ∧
        hasValidSignature sigs body signatures checkpoint.origin key = true := by
  rw [verify]
  split
  · next hl => simp [Nat.not_le.mpr hl]
  rename_i hshort
  rw [and_iff_right (Nat.not_lt.mp hshort)]
  split
  · next hsplit => simp [hsplit]
  rename_i body signatures hsplit
  simp only [ok_iff, hsplit, Option.some.injEq, Prod.mk.injEq]
  constructor
  · rintro ⟨parsed, hp, hs, rfl⟩
    exact ⟨body, signatures, ⟨rfl, rfl⟩, hp, by simpa using hs⟩
  · rintro ⟨_, _, ⟨rfl, rfl⟩, hp, hs⟩
    exact ⟨checkpoint, hp, by simpa using hs, rfl⟩

/-- Whether a note carries a cosignature that a witness's key verifies. -/
def hasCosignature (sigs : Signatures) (body signatures : Bytes) (witness : WitnessKey) : Bool :=
  (newestValidCosignature sigs body signatures witness.name witness.key none).isSome

theorem exists_verified_of_hasCosignature {body signatures : Bytes} {witness : WitnessKey}
    (h : hasCosignature sigs body signatures witness = true) :
    ∃ timestamp signature, sigs.verifyStrict witness.key
      (cosignatureMessage timestamp (body ++ [newline])) signature = true := by
  obtain ⟨newest, hn⟩ := Option.isSome_iff_exists.mp h
  obtain ⟨line, -, hl⟩ := mem_filterMap.mp (max?_mem hn)
  unfold validCosignature at hl
  split at hl
  · cases hl
  rename_i blob hb
  simp only at hl
  split at hl
  · cases hl
  split at hl
  · cases hl
  split at hl
  · cases hl
  split at hl
  · next hv => exact ⟨_, _, hv⟩
  · cases hl

/-- What a note accepted under a nonzero threshold carries. -/
theorem verifyWithWitnesses_eq_ok {key : Bytes} {witnesses : List WitnessKey}
    {threshold : ℕ} (ht : threshold ≠ 0)
    (h : verifyWithWitnesses sigs text key witnesses threshold = .ok checkpoint) :
    ∃ body signatures, parseBody body = .ok checkpoint ∧
      threshold ≤ witnesses.countP (hasCosignature sigs body signatures) := by
  simp only [verifyWithWitnesses, verifyWitnessPolicy, ok_iff, if_neg ht] at h
  obtain ⟨verified, ⟨-, -, parsed, hv, hq⟩, rfl⟩ := h
  obtain ⟨-, body, signatures, hs, hp, -⟩ := verify_eq_ok.mp hv
  rw [hs] at hq
  simp only [ok_iff] at hq
  obtain ⟨hc, rfl⟩ := hq
  refine ⟨body, signatures, hp, ?_⟩
  rw [length_filterMap_eq_countP] at hc
  exact Nat.not_lt.mp hc

end Checkpoint

end Pigeonpost
