import Pigeonpost.Verification.Witness.Deployment

/-! # What the client makes of the service's replies -/

namespace Pigeonpost.WitnessedLog

open WitnessClient Witness Checkpoint List

variable {H : Type} [Sha256 H] [HashBytes H] {sigs : Signatures} (d : WitnessedLog H sigs)

/-! ## Receipts -/

/-- The line in the service's answer for a size, without its newline. -/
def cosignatureText (size reading : ℕ) : Bytes :=
  signatureText d.name
    (Checkpoint.cosignatureBlob sigs (d.checkpoint size) d.name d.witnessKey reading)

def cosignedNote (size reading : ℕ) : Bytes :=
  Checkpoint.cosignedNote sigs (d.checkpoint size) d.operatorKey d.name d.witnessKey reading

def receipt (size reading : ℕ) : WitnessReceipt H where
  version := receiptVersion
  witnessName := d.name
  origin := d.origin
  size := size
  root := d.log.rootOf size
  note := d.cosignedNote size reading
  witnessedAt := reading

/-- A reading of the witness's clock that the client takes for fresh. -/
structure ClockAgrees (now reading : ℕ) : Prop where
  fresh : Checkpoint.FreshReading now (asSecs d.timing.maxCosignatureAge)
    (asSecs d.timing.futureClockSkew) reading
  pos : reading ≠ 0

theorem cosignedNote_eq (size reading : ℕ) : d.cosignedNote size reading =
      d.operatorNote size ++ d.cosignatureText size reading ++ [newline] := by
  rw [cosignedNote, Checkpoint.cosignedNote, signatureLine_eq, ← append_assoc]
  rfl

theorem length_cosignatureText_le (hs : sigs.Lawful) (size reading : ℕ) :
    (d.cosignatureText size reading).length ≤ 365 := by
  have hn := d.name_checks.2
  rw [cosignatureText, length_signatureText, length_cosignatureBlob hs]
  omega

variable {size : ℕ}

theorem length_cosignedNote_le (hs : sigs.Lawful) (h32 : Hashes32 H) (hsize : size ≤ d.log.size)
    (reading : ℕ) : (d.cosignedNote size reading).length ≤ maxCheckpointBytes := by
  have hn := d.length_operatorNote_le hs h32 hsize
  have hl := d.length_cosignatureText_le hs size reading
  rw [cosignedNote_eq, length_append, length_append, length_singleton, maxCheckpointBytes]
  omega

theorem lineStart_isPrefixOf (name blob : Bytes) :
    (lineStart name).isPrefixOf (signatureText name blob) = true := by
  rw [List.isPrefixOf_iff_prefix]
  exact ⟨Base64.encode blob, rfl⟩

theorem appendSignature_cosignatureText (hs : sigs.Lawful) (h32 : Hashes32 H)
    (hsize : size ≤ d.log.size) (reading : ℕ) :
    appendSignature (d.operatorNote size) (d.cosignatureText size reading) =
      .ok (d.cosignedNote size reading) := by
  have hl := d.length_cosignedNote_le hs h32 hsize reading
  rw [cosignedNote_eq, length_append, length_append, length_singleton] at hl
  have hnew : (d.cosignatureText size reading).contains newline = false := by
    simpa [cosignatureText] using not_mem_signatureText (by decide) d.lineName_name.newline rfl _
  have hr : (d.cosignatureText size reading).contains 0x0d = false := by
    simpa [cosignatureText] using
      not_mem_signatureText (by decide) d.lineName_name.carriageReturn rfl _
  have hn : (d.cosignatureText size reading).isEmpty = false := by
    simp [cosignatureText, signatureText]
  rw [appendSignature, d.endsWithNewline_operatorNote, hn, hnew, hr,
    if_neg (by simp), if_neg (Nat.not_lt.mpr hl), cosignedNote_eq]

/-! ## The note that monitoring serves -/

/-- The operator's signature line of a size, without its newline. -/
def operatorText (size : ℕ) : Bytes :=
  signatureText d.origin (Checkpoint.operatorBlob sigs (d.checkpoint size) d.operatorKey)

theorem splitOnceAt_operatorNote (h32 : Hashes32 H) (size : ℕ) :
    splitOnceAt [newline, newline] (d.operatorNote size) =
      some ((d.checkpoint size).fields, d.operatorText size ++ [newline]) := by
  have hs : splitOnceAt [newline, newline] (d.operatorNote size ++ []) =
      some ((d.checkpoint size).fields, d.operatorText size ++ [newline] ++ []) :=
    splitOnceAt_sign h32 d.lineName_origin d.operatorKey []
  rwa [append_nil, append_nil] at hs

theorem lines_operatorText (size : ℕ) :
    lines (d.operatorText size ++ [newline]) = [d.operatorText size] := by
  simpa [operatorText, signatureLine_eq] using lines_signatureLine d.lineName_origin
    (operatorBlob sigs (d.checkpoint size) d.operatorKey) []

theorem length_operatorText_le (hs : sigs.Lawful) (size : ℕ) :
    (d.operatorText size).length ≤ maxSignatureLineBytes := by
  have ho := d.length_origin_le
  rw [operatorText, length_signatureText, length_operatorBlob hs, maxSignatureLineBytes]
  omega

theorem verifyOperatorNote_operatorNote (hsigs : sigs.Lawful) (h32 : Hashes32 H)
    (hsize : size ≤ d.log.size) :
    verifyOperatorNote sigs d.client (d.operatorNote size) = .ok (d.checkpoint size) := by
  have hl : ¬(d.operatorNote size).length > maxCheckpointBytes :=
    Nat.not_lt.mpr ((d.length_operatorNote_le hsigs h32 hsize).trans (by decide))
  have he : (d.operatorNote size).isEmpty = false := by
    simpa using d.operatorNote_ne_nil size
  have hs : (lineStart d.origin).isPrefixOf (d.operatorText size) = true :=
    lineStart_isPrefixOf d.origin _
  have hn : onlyNamedSignatures (d.operatorNote size) d.origin = .ok true := by
    rw [onlyNamedSignatures, d.splitOnceAt_operatorNote h32]
    simp only [d.lines_operatorText, all_cons, all_nil, hs,
      decide_eq_true (d.length_operatorText_le hsigs size)]
    rfl
  rw [verifyOperatorNote, d.client_spec.1]
  simp only [he, hl, d.endsWithNewline_operatorNote, hn, d.verify_operatorNote hsigs h32 hsize]
  simp [checkpoint, bind, Except.bind, Except.mapError, pure, Except.pure]

theorem lineStart_not_isPrefixOf {name other : Bytes} (hn : LineName name)
    (ho : LineName other) (hne : other ≠ name) (blob : Bytes) :
    (lineStart name).isPrefixOf (signatureText other blob) = false := by
  rw [Bool.eq_false_iff, Ne, isPrefixOf_iff_prefix]
  rintro ⟨tail, ht⟩
  simp only [lineStart, signatureText, append_assoc, append_cancel_left_eq, singleton_append] at ht
  exact hne ((append_sep_inj hn.space ho.space).mp ht).1.symm

theorem operatorOnlyNote_operatorNote (hsigs : sigs.Lawful) (h32 : Hashes32 H) (size : ℕ) :
    operatorOnlyNote (d.operatorNote size) d.origin = .ok (d.operatorNote size) := by
  have hl := d.length_operatorText_le hsigs size
  have hs : (lineStart d.origin).isPrefixOf (d.operatorText size) = true :=
    lineStart_isPrefixOf d.origin _
  rw [operatorOnlyNote, d.splitOnceAt_operatorNote h32]
  simp only [d.lines_operatorText, filter_cons_of_pos hs, filter_nil]
  rw [if_neg (by simpa using hl), operatorNote, sign_eq]
  simp [operatorText, signatureLine_eq]
  rfl

variable [DecidableEq H]

/-! ## Replies -/

theorem parseSizeLine_decimal {n : ℕ} (h : n < 2 ^ 64) :
    parseSizeLine (decimal n ++ [newline]) = some n := by
  have hu8 : isUtf8 (decimal n ++ [newline]) = true := isUtf8_append (isUtf8_decimal n) (by decide)
  have hz : ((decimal n).length > 1 && (decimal n).head? == some 0x30) = false := by
    by_cases hn : n = 0
    · subst hn
      decide
    · simp [head?_decimal_ne hn]
  have he : (decimal n).isEmpty = false := by simpa using decimal_ne_nil n
  simp only [parseSizeLine, hu8, endsWithNewline_concat, dropLast_concat, hz, he,
    all_isAsciiDigit_decimal, parseUnsigned_decimal h]
  rfl

theorem readSubmitReply_conflict {n : ℕ} (h : n < 2 ^ 64) :
    readSubmitReply (some (conflict n)) = .ok (.conflict n) := by
  have hd : (decimal n).length ≤ 20 := length_decimal_le (by omega) (by omega)
  have hl : ¬(conflict n).body.length > maxConflictBodyBytes := by
    simp only [conflict, length_append, length_singleton, maxConflictBodyBytes]
    omega
  have ht : eqIgnoreAsciiCase (conflict n).contentType (ascii "text/x.tlog.size") = true :=
    beq_self_eq_true _
  rw [readSubmitReply, if_neg (by simp [conflict]), if_pos (by simp [conflict]), ht, if_neg (by
    simp), readLimited, if_neg hl]
  simp only [conflict, bind, Except.bind, parseSizeLine_decimal h]
  rfl

theorem readSubmitReply_line {line : Bytes} (hl : line.length ≤ WitnessClient.maxResponseBytes)
    (hu8 : isUtf8 line = true) :
    readSubmitReply (some (text 200 line)) = .ok (.cosignatures line) := by
  have hr : readLimited (text 200 line) WitnessClient.maxResponseBytes = .ok line :=
    if_neg (Nat.not_lt.mpr hl)
  rw [readSubmitReply, if_pos (by rfl), hr]
  simp only [bind, Except.bind, hu8]
  rfl

section

variable (hs : sigs.Lawful) (h32 : Hashes32 H) (hsi : size ≤ d.log.size) {now reading : ℕ}
  (hc : d.ClockAgrees now reading)

include hs h32 hsi hc

theorem candidateTimestamp_cosignedNote : candidateTimestamp sigs d.client (d.checkpoint size) now
      (d.cosignedNote size reading) = some reading := by
  have hv := verifyWithFreshWitnesses_cosigned hs h32 d.lineName_origin
    d.lineName_name d.origin_ne_name (hsi.trans_lt d.size_lt) hc.fresh
    (d.length_cosignedNote_le hs h32 hsi reading)
  rw [candidateTimestamp, d.client_spec.1, d.config_spec.2, cosignedNote]
  simp only [hv]
  simp [hc.pos]

theorem acceptLines_cosignatureText :
    acceptLines sigs d.client (d.operatorNote size) (d.checkpoint size) now 0 none
      [d.cosignatureText size reading] = .ok (some (reading, d.cosignedNote size reading)) := by
  have hp : (lineStart d.client.config.witness.name).isPrefixOf
      (d.cosignatureText size reading) = true := by
    rw [d.client_spec.1, d.config_spec.2]
    exact lineStart_isPrefixOf d.name _
  have hl := d.length_cosignatureText_le hs size reading
  rw [acceptLines, if_neg, hp, d.appendSignature_cosignatureText hs h32 hsi]
  · simp [d.candidateTimestamp_cosignedNote hs h32 hsi hc, acceptLines]
  · rw [maxSignatureLines, maxSignatureLineBytes]
    omega

theorem receiptFromLines_cosignature :
    receiptFromLines sigs d.client (d.operatorNote size) (d.checkpoint size)
      (d.cosignatureText size reading ++ [newline]) now = .ok (d.receipt size reading) := by
  have hlen := d.length_cosignatureText_le hs size reading
  have hl : lines (d.cosignatureText size reading ++ [newline]) =
      [d.cosignatureText size reading] := by
    simpa [cosignatureText, signatureLine_eq] using lines_signatureLine d.lineName_name
      (cosignatureBlob sigs (d.checkpoint size) d.name d.witnessKey reading) []
  have he : (d.cosignatureText size reading ++ [newline]).isEmpty = false := by simp
  rw [receiptFromLines, hl, d.acceptLines_cosignatureText hs h32 hsi hc,
    endsWithNewline_concat, he, if_neg]
  · simp only [Bool.not_true, Bool.or_self, Bool.false_eq_true, if_false]
    rw [d.client_spec.1, d.config_spec.2]
    rfl
  · rw [length_append, length_singleton, WitnessClient.maxResponseBytes]
    omega

end

/-- The stored note carries no cosignature, so the client refuses it. -/
theorem receiptFromNote_operatorNote (hsigs : sigs.Lawful) (h32 : Hashes32 H)
    (hsize : size ≤ d.log.size) (now : ℕ) :
    receiptFromNote sigs d.client (d.operatorNote size) now =
      (.error .invalidCosignature : Except WitnessError (WitnessReceipt H)) := by
  have hnote := d.length_operatorNote_le hsigs h32 hsize
  have he : (d.operatorNote size).isEmpty = false := by
    simpa using d.operatorNote_ne_nil size
  have hl := d.length_operatorText_le hsigs size
  have hother : (lineStart d.client.config.witness.name).isPrefixOf
      (d.operatorText size) = false := by
    rw [d.client_spec.1, d.config_spec.2]
    exact lineStart_not_isPrefixOf d.lineName_name d.lineName_origin d.origin_ne_name _
  have ha : acceptLines sigs d.client (d.operatorNote size) (d.checkpoint size)
      now 0 none [d.operatorText size] = .ok none := by
    rw [acceptLines, hother, if_neg, if_pos (by simp), acceptLines]
    rw [maxSignatureLines]
    omega
  have hlines : receiptFromLines sigs d.client (d.operatorNote size)
      (d.checkpoint size) (d.operatorText size ++ [newline]) now = .error .invalidCosignature := by
    rw [receiptFromLines, d.lines_operatorText, ha, endsWithNewline_concat, if_neg]
    · rfl
    · rw [length_append, length_singleton, WitnessClient.maxResponseBytes]
      rw [maxSignatureLineBytes] at hl
      omega
  have hg : ((d.operatorNote size).isEmpty || decide ((d.operatorNote size).length >
      WitnessClient.maxResponseBytes) || !endsWithNewline (d.operatorNote size)) = false := by
    have hs : ¬(d.operatorNote size).length > WitnessClient.maxResponseBytes :=
      Nat.not_lt.mpr (hnote.trans (by decide))
    rw [he, d.endsWithNewline_operatorNote, decide_eq_false hs]
    rfl
  have ho : d.client.origin = d.origin := by rw [d.client_spec.1]
  rw [receiptFromNote, hg, ho, d.operatorOnlyNote_operatorNote hsigs h32]
  simp only [bind, Except.bind, d.verifyOperatorNote_operatorNote hsigs h32 hsize,
    d.splitOnceAt_operatorNote h32, hlines]
  rfl

end Pigeonpost.WitnessedLog
