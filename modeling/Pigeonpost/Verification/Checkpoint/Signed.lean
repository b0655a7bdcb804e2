import Pigeonpost.Verification.Checkpoint.Notes
import Pigeonpost.Verification.Shared.ByteHash

/-! # Notes of lawful signers

A note with the operator's signature, and the cosignature of a witness behind it, is
accepted for the checkpoint it was made from. -/

namespace Pigeonpost.Checkpoint

open Base64

open List hiding Vector

variable {H : Type} [HashBytes H] {sigs : Signatures}
variable {checkpoint : Checkpoint H} {key name : Bytes} {timestamp : ℕ}

/-! ## The fields of a note -/

theorem fields_eq_intercalate (checkpoint : Checkpoint H) :
    checkpoint.fields = [newline].intercalate [checkpoint.origin, decimal checkpoint.size,
        encode (HashBytes.toBytes checkpoint.root)] := by
  simp [fields, intercalate_cons_cons]

theorem encode_ne_nil (h32 : Hashes32 H) (root : H) : encode (HashBytes.toBytes root) ≠ [] := by
  intro hn
  have hl := congrArg length hn
  rw [length_encode, h32] at hl
  simp at hl

theorem splitOnceAt_fields (h32 : Hashes32 H) (ho : newline ∉ checkpoint.origin) (rest : Bytes) :
    splitOnceAt [newline, newline] (checkpoint.fields ++ newline :: newline :: rest) =
      some (checkpoint.fields, rest) := by
  rw [fields_eq_intercalate]
  refine splitOnceAt_intercalate rest _ _ ?_ ?_
  · intro line hl
    simp only [mem_cons, not_mem_nil, or_false] at hl
    rcases hl with rfl | rfl | rfl
    · exact ho
    · exact not_mem_decimal rfl _
    · exact not_mem_encode rfl _
  · intro line hl
    simp only [mem_cons, not_mem_nil, or_false] at hl
    rcases hl with rfl | rfl
    · exact decimal_ne_nil _
    · exact encode_ne_nil h32 _

theorem parseBody_fields_eq (h32 : Hashes32 H) (ho : LineName checkpoint.origin)
    (hs : checkpoint.size < 2 ^ 64) : parseBody checkpoint.fields = .ok checkpoint := by
  refine parseBody_eq_ok.mpr ⟨decimal checkpoint.size,
    encode (HashBytes.toBytes checkpoint.root), ?_, parseUnsigned_decimal hs, ?_⟩
  · rw [lines_fields ho.newline, stripReturn_eq_self ho.carriageReturn,
      lines_of_no_newline (not_mem_encode rfl _) (encode_ne_nil h32 _)]
  · rw [decode_encode, Option.bind_some, HashBytes.ofBytes_toBytes]

/-! ## The operator's signature -/

def operatorBlob (sigs : Signatures) (checkpoint : Checkpoint H) (key : Bytes) : Bytes :=
  keyHash sigs checkpoint.origin (sigs.verifyingKey key) ++ sigs.sign key checkpoint.body

theorem sign_eq (checkpoint : Checkpoint H) (key : Bytes) :
    checkpoint.sign sigs key = checkpoint.fields ++ newline :: newline ::
      signatureLine checkpoint.origin (operatorBlob sigs checkpoint key) := by
  simp [sign, body_eq, operatorBlob]

theorem splitOnceAt_sign (h32 : Hashes32 H) (ho : LineName checkpoint.origin) (key rest : Bytes) :
    splitOnceAt [newline, newline] (checkpoint.sign sigs key ++ rest) = some (checkpoint.fields,
      signatureLine checkpoint.origin (operatorBlob sigs checkpoint key) ++ rest) := by
  rw [sign_eq, append_assoc, cons_append, cons_append, splitOnceAt_fields h32 ho.newline]

theorem length_operatorBlob (hs : sigs.Lawful) (checkpoint : Checkpoint H) (key : Bytes) :
    (operatorBlob sigs checkpoint key).length = 4 + 64 := by
  rw [operatorBlob, length_append, keyHash, length_namedKeyHash hs, hs.length_sign]

theorem hasValidSignature_sign (hs : sigs.Lawful)
    (ho : LineName checkpoint.origin) (key rest : Bytes) :
    hasValidSignature sigs checkpoint.fields
      (signatureLine checkpoint.origin (operatorBlob sigs checkpoint key) ++ rest)
      checkpoint.origin (sigs.verifyingKey key) = true := by
  have hh : (operatorBlob sigs checkpoint key).take 4 =
      keyHash sigs checkpoint.origin (sigs.verifyingKey key) :=
    take_left' (length_namedKeyHash hs _ _ _)
  have hsign : (operatorBlob sigs checkpoint key).drop 4 = sigs.sign key checkpoint.body :=
    drop_left' (length_namedKeyHash hs _ _ _)
  rw [hasValidSignature, lines_signatureLine ho, any_cons,
    signatureBlob_signatureText ho, if_pos rfl]
  simp only [length_operatorBlob hs, hh, hsign, ne_eq, not_true_eq_false, or_self, if_false,
    ← body_eq, hs.verifyStrict_sign, Bool.true_or]

theorem verify_sign_append (hs : sigs.Lawful) (h32 : Hashes32 H)
    (ho : LineName checkpoint.origin) (hsize : checkpoint.size < 2 ^ 64) {rest : Bytes}
    (hl : (checkpoint.sign sigs key ++ rest).length ≤ maxCheckpointBytes) :
    verify sigs (checkpoint.sign sigs key ++ rest) (sigs.verifyingKey key) = .ok checkpoint :=
  verify_eq_ok.mpr ⟨hl, checkpoint.fields, _, splitOnceAt_sign h32 ho key rest,
    parseBody_fields_eq h32 ho hsize, hasValidSignature_sign hs ho key rest⟩

theorem length_signatureText (name blob : Bytes) :
    (signatureText name blob).length = 5 + name.length + (blob.length + 2) / 3 * 4 := by
  simp [signatureText, signatureStart, length_encode]
  omega

theorem length_sign_le (hs : sigs.Lawful) (h32 : Hashes32 H) (ho : checkpoint.origin.length ≤ 256)
    (hsize : checkpoint.size < 2 ^ 64) (key : Bytes) : (checkpoint.sign sigs key).length ≤ 678 := by
  have hd : (decimal checkpoint.size).length ≤ 20 := length_decimal_le (by omega) (by omega)
  rw [sign_eq, signatureLine_eq]
  simp only [fields, length_append, length_cons, length_nil, length_signatureText,
    length_operatorBlob hs, length_encode, h32 checkpoint.root]
  omega

/-! ## A witness's cosignature -/

def cosignatureBlob (sigs : Signatures) (checkpoint : Checkpoint H) (name key : Bytes)
    (timestamp : ℕ) : Bytes :=
  cosignatureKeyHash sigs name (sigs.verifyingKey key) ++ (beBytes 8 timestamp
    ++ sigs.sign key (cosignatureMessage timestamp checkpoint.body))

theorem cosignatureLine_eq {witness : WitnessKey}
    (hn : WitnessKey.new sigs name (sigs.verifyingKey key) = .ok witness)
    (ht : timestamp ≤ i64Max) :
    checkpoint.cosignatureLine sigs name key timestamp =
      .ok (signatureLine name (cosignatureBlob sigs checkpoint name key timestamp)) := by
  rw [cosignatureLine, hn]
  simp only [cosignatureBlob, ← append_assoc]
  exact if_neg (Nat.not_lt.mpr ht)

theorem length_cosignatureBlob (hs : sigs.Lawful) (checkpoint : Checkpoint H) (name key : Bytes)
    (timestamp : ℕ) : (cosignatureBlob sigs checkpoint name key timestamp).length = 4 + 8 + 64 := by
  rw [cosignatureBlob, length_append, length_append, cosignatureKeyHash,
    length_namedKeyHash hs, length_beBytes, hs.length_sign]

variable {freshness : Option Freshness} {operatorKey : Bytes}

theorem validCosignature_signatureText (hsigs : sigs.Lawful) (hn : LineName name)
    (ht : timestamp ≤ i64Max) (hf : freshness.any (·.rejects timestamp) = false) :
    validCosignature sigs checkpoint.fields name (sigs.verifyingKey key) freshness
      (signatureText name (cosignatureBlob sigs checkpoint name key timestamp)) =
        some timestamp := by
  have hh : (cosignatureBlob sigs checkpoint name key timestamp).take 4 =
      cosignatureKeyHash sigs name (sigs.verifyingKey key) :=
    take_left' (length_namedKeyHash hsigs _ _ _)
  have htail : (cosignatureBlob sigs checkpoint name key timestamp).drop 4 =
      beBytes 8 timestamp ++ sigs.sign key (cosignatureMessage timestamp checkpoint.body) :=
    drop_left' (length_namedKeyHash hsigs _ _ _)
  have hs : readBE (((cosignatureBlob sigs checkpoint name key timestamp).drop 4).take 8) =
      timestamp := by
    rw [htail, take_left' (length_beBytes 8 timestamp)]
    refine readBE_beBytes (ht.trans_lt ?_)
    norm_num [i64Max]
  have hsign : (cosignatureBlob sigs checkpoint name key timestamp).drop 12 =
      sigs.sign key (cosignatureMessage timestamp checkpoint.body) := by
    rw [show (12 : ℕ) = 4 + 8 from rfl, ← drop_drop, htail, drop_left' (length_beBytes 8 timestamp)]
  rw [validCosignature, signatureBlob_signatureText hn]
  simp only [length_cosignatureBlob hsigs, hh, hs, hsign, ne_eq, not_true_eq_false, or_self,
    if_false, Nat.not_lt.mpr ht, hf, Bool.false_eq_true, ← body_eq,
    hsigs.verifyStrict_sign, if_true]

def cosignedNote (sigs : Signatures) (checkpoint : Checkpoint H) (operatorKey name key : Bytes)
    (timestamp : ℕ) : Bytes :=
  checkpoint.sign sigs operatorKey
    ++ signatureLine name (cosignatureBlob sigs checkpoint name key timestamp)

theorem newestValidCosignature_cosigned (hs : sigs.Lawful)
    (ho : LineName checkpoint.origin) (hn : LineName name) (hne : checkpoint.origin ≠ name)
    (ht : timestamp ≤ i64Max) (hf : freshness.any (·.rejects timestamp) = false) :
    newestValidCosignature sigs checkpoint.fields
      (signatureLine checkpoint.origin (operatorBlob sigs checkpoint operatorKey)
        ++ signatureLine name (cosignatureBlob sigs checkpoint name key timestamp))
      name (sigs.verifyingKey key) freshness = some timestamp := by
  have hope : validCosignature sigs checkpoint.fields name (sigs.verifyingKey key) freshness
      (signatureText checkpoint.origin (operatorBlob sigs checkpoint operatorKey)) = none := by
    rw [validCosignature, signatureBlob_signatureText ho, if_neg hne]
  have hl : lines (signatureLine name (cosignatureBlob sigs checkpoint name key timestamp)) =
      [signatureText name (cosignatureBlob sigs checkpoint name key timestamp)] := by
    simpa using lines_signatureLine hn (cosignatureBlob sigs checkpoint name key timestamp) []
  rw [newestValidCosignature, lines_signatureLine ho, hl, filterMap_cons_none hope,
    filterMap_cons_some (validCosignature_signatureText hs hn ht hf)]
  rfl

/-- A clock reading that a verifier at `now` takes for fresh. -/
structure FreshReading (now maxAge futureSkew timestamp : ℕ) : Prop where
  now_le : now ≤ i64Max
  maxAge_ne : maxAge ≠ 0
  skew_le : futureSkew ≤ maxAge
  le : timestamp ≤ i64Max
  accepted : Freshness.rejects ⟨now, maxAge, futureSkew⟩ timestamp = false

theorem verifyWithFreshWitnesses_cosigned (hs : sigs.Lawful) (h32 : Hashes32 H)
    (ho : LineName checkpoint.origin) (hname : LineName name)
    (hne : checkpoint.origin ≠ name) (hsize : checkpoint.size < 2 ^ 64)
    {now maxAge futureSkew : ℕ} (hf : FreshReading now maxAge futureSkew timestamp)
    (hl : (cosignedNote sigs checkpoint operatorKey name key timestamp).length ≤
      maxCheckpointBytes) :
    verifyWithFreshWitnesses sigs (cosignedNote sigs checkpoint operatorKey name key timestamp)
      (sigs.verifyingKey operatorKey) [⟨name, sigs.verifyingKey key⟩] 1 now maxAge futureSkew =
        .ok ⟨checkpoint, some timestamp⟩ := by
  have hv := verify_sign_append hs h32 ho hsize hl
  have hn : newestValidCosignature sigs checkpoint.fields
      (signatureLine checkpoint.origin (operatorBlob sigs checkpoint operatorKey)
        ++ signatureLine name (cosignatureBlob sigs checkpoint name key timestamp))
      name (sigs.verifyingKey key) (some ⟨now, maxAge, futureSkew⟩) = some timestamp :=
    newestValidCosignature_cosigned hs ho hname hne hf.le hf.accepted
  have hp : ¬(now > i64Max ∨ maxAge = 0 ∨ futureSkew > maxAge) := by
    have hnow := hf.now_le
    have ha := hf.maxAge_ne
    have hskew := hf.skew_le
    omega
  rw [verifyWithFreshWitnesses, if_neg hp, verifyWitnessPolicy]
  rw [cosignedNote] at hl ⊢
  simp [hv, splitOnceAt_sign h32 ho, hn, witnessQuorumIntersects, hasDuplicateWitness]

/-! ## Bodies as they are rendered

A verified note begins with the body that its checkpoint renders to just when it spells the size
without a sign or leading zeros and has no carriage returns before its newlines. -/

/-- A byte string has one base64 text, and no other text is read. -/
theorem unb64_eq_some {text bytes : Bytes} : unb64 text = some bytes ↔ b64 bytes = text := by
  constructor
  · exact encode_of_decode
  · rintro rfl
    exact decode_encode bytes

/-- The hashes of the source are 32 bytes. -/
instance : HashBytes (Vector UInt8 32) where
  toBytes hash := hash.toList
  ofBytes bytes := if h : bytes.length = 32 then some ⟨bytes.toArray, h⟩ else none
  ofBytes_toBytes hash := by simp [Vector.toList]

theorem toBytes_of_ofBytes {bytes : Bytes} {hash : Vector UInt8 32}
    (h : HashBytes.ofBytes bytes = some hash) : HashBytes.toBytes hash = bytes := by
  obtain ⟨hl, heq⟩ := Option.dite_none_right_eq_some.mp h
  cases heq
  rfl

/-- The spelling of a rendered body. -/
structure Spelled (body : Bytes) : Prop where
  newlines : ¬[0x0d, newline] <:+: body
  size : ∀ sizeText, (lines body)[1]? = some sizeText → ∃ n, sizeText = decimal n

variable {checkpoint : Checkpoint (Vector UInt8 32)}

theorem fields_of_parseBody {body : Bytes} (h : parseBody body = .ok checkpoint)
    (hs : Spelled body) (hl : body.getLast? ≠ some newline) : checkpoint.fields = body := by
  obtain ⟨sizeText, rootB64, hlines, hsize, hr⟩ := parseBody_eq_ok.mp h
  obtain ⟨n, rfl⟩ := hs.size sizeText (by rw [hlines]; rfl)
  rw [parseUnsigned_decimal_eq, Option.ite_none_right_eq_some] at hsize
  obtain ⟨bytes, hd, hb⟩ := Option.bind_eq_some_iff.mp hr
  have hj := intercalate_lines hs.newlines hl
  rw [hlines, Option.some.inj hsize.2, ← encode_of_decode hd, ← toBytes_of_ofBytes hb] at hj
  rw [← hj, intercalate_cons_cons, intercalate_cons_cons,
    intercalate_singleton, append_assoc, append_assoc]
  rfl

theorem hashes32_vector : Hashes32 (Vector UInt8 32) := fun hash => hash.length_toList

theorem spelled_fields (h : parseBody checkpoint.fields = .ok checkpoint) :
    Spelled checkpoint.fields := by
  have ho := newline_not_mem_origin h
  obtain ⟨sizeText, rootB64, hl, -⟩ := parseBody_eq_ok.mp h
  rw [lines_fields ho, cons.injEq] at hl
  constructor
  · rw [fields, newline, return_newline_infix_iff ho,
      return_newline_infix_iff (not_mem_decimal rfl _)]
    rintro (hr | hr | hr)
    · obtain ⟨start, heq⟩ := getLast?_eq_some_iff.mp hr
      have hlen := congrArg length (hl.1.symm.trans (if_pos hr))
      simp [heq] at hlen
    · exact not_mem_decimal rfl _ (mem_of_getLast? hr)
    · exact not_mem_encode rfl _ (hr.subset mem_cons_self)
  · rw [lines_fields ho]
    rintro _ ⟨⟩
    exact ⟨_, rfl⟩

/-- What was signed is what a witness renders again, just where the body is so spelled. -/
theorem body_isPrefix_iff_spelled (sigs : Signatures) (text key : Bytes)
    (h : verify sigs text key = .ok checkpoint) : checkpoint.body ++ [newline] <+: text ↔
      ∃ body signatures, splitOnceAt [newline, newline] text = some (body, signatures) ∧
        Spelled body := by
  obtain ⟨-, body, signatures, hb, hp, -⟩ := verify_eq_ok.mp h
  rw [body_eq]
  constructor
  · rintro ⟨rest, rfl⟩
    have hf := splitOnceAt_fields hashes32_vector (newline_not_mem_origin hp) rest
    simp only [append_assoc, singleton_append] at hb ⊢
    cases hb.symm.trans hf
    exact ⟨_, _, hb, spelled_fields hp⟩
  · rintro ⟨_, _, hb', hs⟩
    cases hb.symm.trans hb'
    rw [fields_of_parseBody hp hs (getLast?_of_splitOnceAt hb), eq_of_splitOnceAt hb]
    exact ⟨signatures, by simp⟩

section Sample

/-- A root of zeros behind the first two lines of a body, signed. -/
def startedNote (start : Bytes) : Bytes :=
  start ++ encode (List.replicate 32 0) ++ [newline, newline] ++
    signatureLine (ascii "o") (keyHash namedSignatures (ascii "o") [] ++ List.replicate 64 0)

def sampleCheckpoint : Checkpoint (Vector UInt8 32) := ⟨ascii "o", 5, Vector.replicate 32 0⟩

theorem body_isPrefix_iff_spelled_sample :
    sampleCheckpoint.body ++ [newline] <+: startedNote (ascii "o\n5\n") := by
  refine (body_isPrefix_iff_spelled namedSignatures _ [] (by decide +kernel)).mpr ?_
  have hl : (lines sampleCheckpoint.fields)[1]? = some (decimal 5) := by decide +kernel
  refine ⟨sampleCheckpoint.fields, _, rfl, by decide +kernel, fun sizeText hs => ⟨5, ?_⟩⟩
  exact Option.some.inj (hs.symm.trans hl)

/-- A signed size, a size with a leading zero and a carriage return are accepted. -/
theorem verify_respelled :
    [ascii "o\n+5\n", ascii "o\n05\n", ascii "o\r\n5\n"].Forall fun start =>
      verify namedSignatures (startedNote start) [] = .ok sampleCheckpoint ∧
        ¬sampleCheckpoint.body ++ [newline] <+: startedNote start := by
  decide +kernel

end Sample

end Pigeonpost.Checkpoint
