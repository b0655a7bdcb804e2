import Pigeonpost.Program.Witness.Client
import Pigeonpost.Verification.Checkpoint.Signed
import Pigeonpost.Verification.Shared.ByteHash
import Pigeonpost.Verification.Witness.Server

/-! # A registry, its client and the shipped witness

The client's requests mean to the service what the client put into them. -/

namespace Pigeonpost

open WitnessClient Witness Base64 Checkpoint List

open MerkleLog (consistency)

/-- A registry's log, the client it runs for one witness, and that witness's key. -/
structure WitnessedLog (H : Type) (sigs : Signatures) where
  log : MerkleLog H
  origin : Bytes
  operatorKey : Bytes
  name : Bytes
  witnessKey : Bytes
  timing : WitnessTiming
  config : WitnessConfig
  client : WitnessClient
  config_eq : WitnessConfig.new sigs name (sigs.verifyingKey witnessKey) origin = .ok config
  client_eq : WitnessClient.new config origin (sigs.verifyingKey operatorKey) timing = .ok client
  /-- Sizes are 64-bit numbers. -/
  size_lt : log.size < 2 ^ 64
  /-- A name is a text. -/
  name_utf8 : isUtf8 name = true

namespace WitnessedLog

variable {H : Type} {sigs : Signatures} (d : WitnessedLog H sigs)
variable {size oldSize : ℕ} {proof : List H} {note : Bytes}

/-- The service as it runs for this log. -/
def witness : Witness := ⟨d.name, d.witnessKey, d.origin, sigs.verifyingKey d.operatorKey⟩

/-! ## What the constructors checked -/

theorem client_spec : d.client = ⟨d.config, d.origin, sigs.verifyingKey d.operatorKey, d.timing⟩ ∧
      validOrigin d.origin = true ∧ d.origin ≠ d.config.witness.name := by
  have h := d.client_eq
  simp only [new, ok_iff] at h
  obtain ⟨timing, ht, hc, hcli⟩ := h
  have hs : timing = d.timing := by
    unfold WitnessTiming.validate at ht
    split at ht
    · cases ht
    · exact (Except.ok.inj ht).symm
  simp only [not_or, Bool.not_eq_true, Bool.not_eq_false'] at hc
  exact ⟨by rw [← hcli, hs], hc.1, hc.2⟩

theorem config_spec : WitnessKey.new sigs d.name (sigs.verifyingKey d.witnessKey) =
        .ok ⟨d.name, sigs.verifyingKey d.witnessKey⟩ ∧
      d.config = ⟨⟨d.name, sigs.verifyingKey d.witnessKey⟩, hex (sigs.sha256 d.origin)⟩ := by
  have h := d.config_eq
  simp only [WitnessConfig.new, ok_iff] at h
  obtain ⟨witness, hw, -, hc⟩ := h
  have hk : witness = ⟨d.name, sigs.verifyingKey d.witnessKey⟩ := by
    unfold WitnessKey.new at hw
    split at hw
    · cases hw
    split at hw
    · cases hw
    · exact (Except.ok.inj hw).symm
  rw [hk] at hw hc
  exact ⟨hw, hc.symm⟩

theorem lineName_of_graphic {name : Bytes} (h : ∀ b ∈ name, isAsciiGraphic b = true) :
    LineName name :=
  ⟨fun hm => absurd (h _ hm) (by decide), fun hm => absurd (h _ hm) (by decide),
    fun hm => absurd (h _ hm) (by decide)⟩

theorem origin_graphic : ∀ b ∈ d.origin, isAsciiGraphic b = true := by
  have h := d.client_spec.2.1
  simp only [validOrigin, Bool.and_eq_true, all_eq_true] at h
  exact h.2

theorem lineName_origin : LineName d.origin := lineName_of_graphic d.origin_graphic

theorem length_origin_le : d.origin.length ≤ 256 := by
  have h := d.client_spec.2.1
  simp only [validOrigin, Bool.and_eq_true, decide_eq_true_eq] at h
  exact h.1.2

/-- What `WitnessKey::new` demands of a name. -/
theorem name_checks : (∀ b ∈ d.name, isAsciiControl b = false ∧ isAsciiWhitespace b = false) ∧
    d.name.length ≤ 256 := by
  have h := d.config_spec.1
  unfold WitnessKey.new at h
  split at h
  · cases h
  rename_i hn
  simp only [Bool.or_eq_true, any_eq_true, not_or, not_exists, not_and,
    decide_eq_true_eq, Nat.not_lt] at hn
  refine ⟨?_, hn.1.2⟩
  intro b hb
  simpa [not_or] using hn.2 b hb

theorem lineName_name : LineName d.name :=
  ⟨fun hm => absurd (d.name_checks.1 _ hm).1 (by decide),
    fun hm => absurd (d.name_checks.1 _ hm).1 (by decide),
    fun hm => absurd (d.name_checks.1 _ hm).2 (by decide)⟩

theorem origin_ne_name : d.origin ≠ d.name := by
  have h := d.client_spec.2.2
  rwa [d.config_spec.2] at h

/-! ## Notes of the log -/

section Notes

variable [Sha256 H] [HashBytes H]

def checkpoint (size : ℕ) : Checkpoint H := ⟨d.origin, size, d.log.rootOf size⟩

def operatorNote (size : ℕ) : Bytes := (d.checkpoint size).sign sigs d.operatorKey

def proofFor (old new : ℕ) : Except WitnessError (List H) :=
  match d.log.consistencyProof old new with
  | some proof => .ok proof
  | none => .error .proofUnavailable

theorem ascii_of_graphic : ∀ b, isAsciiGraphic b = true → b < 0x80 :=
  forall_byte (by decide +kernel)

theorem ascii_of_digit : ∀ b, isAsciiDigit b = true → b < 0x80 :=
  forall_byte (by decide +kernel)

theorem ascii_of_base64 : ∀ b, isBase64Byte b = true → b < 0x80 :=
  forall_byte (by decide +kernel)

theorem isUtf8_decimal (n : ℕ) : isUtf8 (decimal n) = true :=
  isUtf8_of_ascii fun b hb => ascii_of_digit b (all_eq_true.mp (all_isAsciiDigit_decimal n) b hb)

theorem isUtf8_encode (bytes : Bytes) : isUtf8 (encode bytes) = true :=
  isUtf8_of_ascii fun b hb => ascii_of_base64 b (isBase64Byte_of_mem_encode _ _ hb)

theorem isUtf8_signatureLine {name : Bytes} (hn : isUtf8 name = true) (blob : Bytes) :
    isUtf8 (signatureLine name blob) = true := by
  refine isUtf8_append (isUtf8_append (isUtf8_append (isUtf8_append ?_ hn) ?_)
    (isUtf8_encode blob)) ?_
  · decide
  · decide
  · decide

theorem isUtf8_operatorNote (size : ℕ) : isUtf8 (d.operatorNote size) = true := by
  have ho : isUtf8 d.origin = true :=
    isUtf8_of_ascii fun b hb => ascii_of_graphic b (d.origin_graphic b hb)
  have hl : isUtf8 [newline] = true := by decide
  refine isUtf8_append (isUtf8_append ?_ hl) (isUtf8_signatureLine ho _)
  exact isUtf8_append (isUtf8_append (isUtf8_append (isUtf8_append (isUtf8_append ho hl)
    (isUtf8_decimal _)) hl) (isUtf8_encode _)) hl

theorem length_operatorNote_le (hs : sigs.Lawful) (h32 : Hashes32 H)
    (hsize : size ≤ d.log.size) : (d.operatorNote size).length ≤ 678 :=
  length_sign_le hs h32 d.length_origin_le (hsize.trans_lt d.size_lt) _

theorem verify_operatorNote (hs : sigs.Lawful) (h32 : Hashes32 H) (hsize : size ≤ d.log.size) :
    verify sigs (d.operatorNote size) (sigs.verifyingKey d.operatorKey) =
      .ok (d.checkpoint size) := by
  have hl := d.length_operatorNote_le hs h32 hsize
  have hv : (d.operatorNote size ++ []).length ≤ maxCheckpointBytes →
      verify sigs (d.operatorNote size ++ []) (sigs.verifyingKey d.operatorKey) =
        .ok (d.checkpoint size) :=
    verify_sign_append hs h32 d.lineName_origin (hsize.trans_lt d.size_lt)
  rw [append_nil] at hv
  exact hv (hl.trans (by decide))

theorem endsWithNewline_concat (text : Bytes) : endsWithNewline (text ++ [newline]) = true := by
  rw [endsWithNewline, getLast?_concat]
  rfl

theorem endsWithNewline_operatorNote (size : ℕ) : endsWithNewline (d.operatorNote size) = true := by
  rw [operatorNote, sign_eq, signatureLine_eq, ← cons_append, ← cons_append, ← append_assoc,
    endsWithNewline_concat]

theorem operatorNote_ne_nil (size : ℕ) : d.operatorNote size ≠ [] := by
  rw [operatorNote, sign_eq]
  simp

end Notes

/-! ## Requests -/

section Requests

variable [HashBytes H]

def requestLines (oldSize : ℕ) (proof : List H) : List Bytes :=
  (ascii "old " ++ decimal oldSize) :: proof.map fun hash => Base64.encode (HashBytes.toBytes hash)

def requestText (oldSize : ℕ) (proof : List H) (note : Bytes) : Bytes :=
  [newline].intercalate (requestLines oldSize proof) ++ newline :: newline :: note

theorem intercalate_eq_flatMap (first : Bytes) (rest : List Bytes) :
    first ++ [newline] ++ rest.flatMap (· ++ [newline]) =
      [newline].intercalate (first :: rest) ++ [newline] := by
  induction rest generalizing first with
  | nil => simp
  | cons second _ ih =>
    rw [intercalate_cons_cons, append_assoc _ _ [newline], ← ih second]
    simp

theorem requestBody_eq : requestBody oldSize proof note =
      if proof.length > maxConsistencyHashes ∨ (oldSize = 0 ∧ !proof.isEmpty)
          ∨ note.isEmpty ∨ note.length > maxCheckpointBytes
          ∨ !endsWithNewline note then
        .error .invalidConsistencyProof
      else if (requestText oldSize proof note).length > WitnessClient.maxRequestBytes then
        .error .requestTooLarge
      else .ok (requestText oldSize proof note) := by
  have ht : ascii "old " ++ decimal oldSize ++ [newline]
      ++ proof.flatMap (fun hash => Base64.encode (HashBytes.toBytes hash) ++ [newline])
      ++ [newline] ++ note = requestText oldSize proof note := by
    have hl := intercalate_eq_flatMap (ascii "old " ++ decimal oldSize)
      (proof.map fun hash => encode (HashBytes.toBytes hash))
    rw [flatMap_map] at hl
    rw [hl, requestText, requestLines]
    simp
  rw [requestBody, ht]

theorem newline_not_mem_requestLines {line : Bytes}
    (h : line ∈ requestLines oldSize proof) : newline ∉ line := by
  rcases mem_cons.mp h with rfl | hp
  · rw [mem_append, not_or]
    exact ⟨by decide, not_mem_decimal rfl _⟩
  · obtain ⟨hash, -, rfl⟩ := mem_map.mp hp
    exact not_mem_encode rfl _

theorem splitOnceAt_requestText (h32 : Hashes32 H) (oldSize : ℕ) (proof : List H) (note : Bytes) :
    splitOnceAt [newline, newline] (requestText oldSize proof note) =
      some ([newline].intercalate (requestLines oldSize proof), note) := by
  refine splitOnceAt_intercalate note _ _ (fun _ => newline_not_mem_requestLines) ?_
  intro line hl
  obtain ⟨hash, -, rfl⟩ := mem_map.mp hl
  exact encode_ne_nil h32 hash

theorem readProof_map (h32 : Hashes32 H) (proof before : List H)
    (hl : before.length + proof.length ≤ maxProofHashes) :
    readProof before (proof.map fun hash => encode (HashBytes.toBytes hash)) =
      some (before ++ proof) := by
  induction proof generalizing before with
  | nil => simp [readProof]
  | cons hash _ ih =>
    rw [length_cons] at hl
    have hne : (encode (HashBytes.toBytes hash)).isEmpty = false := by
      simpa using encode_ne_nil h32 hash
    rw [map_cons, readProof, hne, if_neg (by simp), if_neg (by omega),
      decodeLoop_encode, Option.bind_some, HashBytes.ofBytes_toBytes]
    simp only
    rw [ih (before ++ [hash]) (by rw [length_append, length_singleton]; omega)]
    simp

/-- The service reads back what the client wrote. -/
theorem parseSubmission_requestText (h32 : Hashes32 H) (hs : oldSize < 2 ^ 64)
    (hl : proof.length ≤ maxProofHashes) (he : oldSize = 0 → proof = []) :
    parseSubmission (requestText oldSize proof note) = some ⟨oldSize, proof, note⟩ := by
  have hlines : ([newline].intercalate (requestLines oldSize proof)).splitOn newline =
      requestLines oldSize proof :=
    splitOn_intercalate newline (fun _ => newline_not_mem_requestLines) (by simp [requestLines])
  have hg : ¬(oldSize = 0 ∧ (!proof.isEmpty) = true) := by
    rintro ⟨hz, hp⟩
    simp [he hz] at hp
  rw [parseSubmission, splitOnceAt_requestText h32]
  simp only [Option.bind_eq_bind, Option.bind_some, hlines]
  simp only [requestLines, stripStart_append, Option.bind_some, parseUnsigned_decimal hs,
    readProof_map h32 proof [] (by simpa using hl), nil_append, if_neg hg]

theorem length_readProof_le {before : List H} {texts : List Bytes}
    (hb : before.length ≤ maxProofHashes) (h : readProof before texts = some proof) :
    proof.length ≤ maxProofHashes := by
  induction texts generalizing before with
  | nil => exact Option.some.inj h ▸ hb
  | cons _ _ ih =>
    rw [readProof] at h
    split_ifs at h with he hl
    · exact ih hb h
    · split at h
      · cases h
      refine ih ?_ h
      rw [length_append, length_singleton]
      omega

/-- Every request that the client builds is read back as it was, and whatever the service
reads from a body is all there is in it. -/
theorem submission_codec (h32 : Hashes32 H) :
    (∀ (oldSize : ℕ) (proof : List H) (note body : Bytes), oldSize < 2 ^ 64 →
      requestBody oldSize proof note = .ok body →
        parseSubmission body = some ⟨oldSize, proof, note⟩) ∧
    ∀ (body : Bytes) (submission : Submission H), parseSubmission body = some submission →
      submission.proof.length ≤ 63 ∧
        ∀ other, parseSubmission body = some other → other = submission := by
  constructor
  · intro oldSize proof note body hs hb
    rw [requestBody_eq] at hb
    split_ifs at hb with hc
    cases hb
    simp only [not_or, not_and] at hc
    exact parseSubmission_requestText h32 hs (Nat.not_lt.mp hc.1) fun hz => by simpa using hc.2.1 hz
  · intro body submission h
    refine ⟨?_, fun other ho => Option.some.inj (ho.symm.trans h)⟩
    simp only [parseSubmission, Option.bind_eq_bind, Option.bind_eq_some_iff] at h
    obtain ⟨⟨head, note⟩, -, h⟩ := h
    split at h
    · cases h
    simp only [Option.bind_eq_some_iff] at h
    obtain ⟨_, -, _, -, proof, hp, h⟩ := h
    split_ifs at h
    cases h
    exact length_readProof_le (Nat.zero_le _) hp

theorem submission_codec_sample :
    parseSubmission (ascii "old 7\nAAAAAAAAAAAAAAAAAAAAAAAAAAAAAAAAAAAAAAAAAAA=\n" ++
        ascii "AQEBAQEBAQEBAQEBAQEBAQEBAQEBAQEBAQEBAQEBAQE=\n\no\n\ns\n") =
      some (⟨7, [⟨0⟩, ⟨1⟩], ascii "o\n\ns\n"⟩ : Submission ByteHash) :=
  (submission_codec ByteHash.hashes32).1 7 _ (ascii "o\n\ns\n") _ (by decide) (by decide +kernel)

theorem isUtf8_intercalate {texts : List Bytes} (h : ∀ text ∈ texts, isUtf8 text = true) :
    isUtf8 ([newline].intercalate texts) = true := by
  induction texts with
  | nil => rfl
  | cons first rest ih =>
    have hr := ih fun text ht => h text (by simp [ht])
    cases rest with
    | nil => simpa using h first (by simp)
    | cons =>
      rw [intercalate_cons_cons]
      exact isUtf8_append (isUtf8_append (h first (by simp)) (by decide)) hr

theorem isUtf8_requestText (hn : isUtf8 note = true) (oldSize : ℕ)
    (proof : List H) : isUtf8 (requestText oldSize proof note) = true := by
  have hb : isUtf8 [newline, newline] = true := by decide
  refine isUtf8_append (isUtf8_intercalate ?_) (isUtf8_append hb hn)
  intro line hl
  rcases mem_cons.mp hl with rfl | hp
  · exact isUtf8_append (by decide) (isUtf8_decimal oldSize)
  · obtain ⟨hash, -, rfl⟩ := mem_map.mp hp
    exact isUtf8_encode _

theorem length_intercalate_requestLines (h32 : Hashes32 H) (first : Bytes) (proof : List H) :
    ([newline].intercalate
      (first :: proof.map fun hash => encode (HashBytes.toBytes hash))).length =
        first.length + 45 * proof.length := by
  induction proof generalizing first with
  | nil => simp
  | cons _ _ ih =>
    rw [map_cons, intercalate_cons_cons, length_append, ih, length_append,
      length_encode, h32, length_singleton, length_cons]
    omega

theorem length_requestText_le (h32 : Hashes32 H) (hs : oldSize < 2 ^ 64)
    (hp : proof.length ≤ maxProofHashes) (hn : note.length ≤ 678) :
    (requestText oldSize proof note).length ≤ Witness.maxRequestBytes := by
  have hd : (decimal oldSize).length ≤ 20 := length_decimal_le (by omega) (by omega)
  have hold : (ascii "old ").length = 4 := rfl
  rw [requestText, requestLines, length_append, length_intercalate_requestLines h32,
    length_append, length_cons, length_cons, Witness.maxRequestBytes]
  rw [Witness.maxProofHashes] at hp
  omega

end Requests

/-! ## Submissions of this registry -/

section Submissions

variable [Sha256 H] [HashBytes H] [DecidableEq H]

section

variable (hs : sigs.Lawful) (h32 : Hashes32 H) (hold : oldSize < 2 ^ 64) (hsi : size ≤ d.log.size)
  (hp : proof.length ≤ maxProofHashes) (he : oldSize = 0 → proof = [])

include hs h32 hold hsi hp he

omit [DecidableEq H] in
theorem requestBody_operatorNote : requestBody oldSize proof (d.operatorNote size) =
      .ok (requestText oldSize proof (d.operatorNote size)) := by
  have hn := d.length_operatorNote_le hs h32 hsi
  have hl := length_requestText_le h32 hold hp hn
  have hne : (d.operatorNote size).isEmpty = false := by
    simpa using d.operatorNote_ne_nil size
  rw [requestBody_eq, if_neg, if_neg]
  · exact Nat.not_lt.mpr (hl.trans (by decide))
  · rw [d.endsWithNewline_operatorNote, hne]
    rintro (h | ⟨hz, h⟩ | h | h | h)
    · exact absurd h (Nat.not_lt.mpr hp)
    · simp [he hz] at h
    · simp at h
    · exact absurd (hn.trans (by decide)) (Nat.not_le.mpr h)
    · simp at h

/-- The service accepts the client's submission as one of this log. -/
theorem readSubmission_requestText :
    readSubmission sigs d.witness (requestText oldSize proof (d.operatorNote size)) =
      .ok (⟨oldSize, proof, d.operatorNote size⟩, d.checkpoint size) := by
  refine readSubmission_eq_ok.mpr ⟨?_, isUtf8_requestText (d.isUtf8_operatorNote size) _ _,
    parseSubmission_requestText h32 hold hp he, d.verify_operatorNote hs h32 hsi, rfl,
    ?_⟩
  · exact length_requestText_le h32 hold hp (d.length_operatorNote_le hs h32 hsi)
  · intro hz
    have hs0 : size = 0 := hz
    subst hs0
    rfl

end

end Submissions

end WitnessedLog

end Pigeonpost
