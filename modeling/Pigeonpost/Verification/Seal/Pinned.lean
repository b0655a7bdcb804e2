import Pigeonpost.Library.HashChain
import Pigeonpost.Program.Seal.Manifest
import Pigeonpost.Verification.Disclosure.Leaf
import Pigeonpost.Verification.Shared.SampleSeal

/-! # A terminal manifest pins one trace

Segments that agree with one entry of a manifest agree on their header and footer, and
their frames are chains of one length to one hash. -/

namespace Pigeonpost

open List hiding Vector

variable {prim : CryptoPrimitives} {bytes : Bytes} {verifier : EpochManifestVerifier}

/-! ## One value for each encoding

Headers, footers and the inputs of the frame chain are read back from their bytes in
one way only. -/

theorem beBytes_uint64_inj {a b : UInt64} : beBytes 8 a.toNat = beBytes 8 b.toNat ↔ a = b := by
  rw [beBytes_inj a.toNat_lt b.toNat_lt, UInt64.toNat_inj]

theorem beBytes_uint32_inj {a b : UInt32} : beBytes 4 a.toNat = beBytes 4 b.toNat ↔ a = b := by
  rw [beBytes_inj a.toNat_lt b.toNat_lt, UInt32.toNat_inj]

theorem WrappedEpochKey.encode_eq_ok {wrapped : WrappedEpochKey} (h : wrapped.encode = .ok bytes) :
    wrapped.version = traceKeyWrapVersion ∧ ∃ keyId, wrapped.keyId.encode = .ok keyId ∧
      bytes = [wrapped.version] ++ keyId ++ wrapped.complianceKeyDigest.toList
        ++ wrapped.epochKeyCommitment.toList ++ wrapped.ephemeralPublicKey.toList
        ++ wrapped.nonce.toList ++ wrapped.ciphertext.toList := by
  simp only [encode, ok_iff, not_not] at h
  obtain ⟨hv, _, -, keyId, hki, hb⟩ := h
  exact ⟨hv, keyId, hki, hb.symm⟩

theorem WrappedEpochKey.encode_inj {a b : WrappedEpochKey} (ha : a.encode = .ok bytes)
    (hb : b.encode = .ok bytes) : a = b := by
  obtain ⟨hv, keyId, hki, rfl⟩ := encode_eq_ok ha
  obtain ⟨hv', keyId', hk', heq⟩ := encode_eq_ok hb
  simp only [append_assoc, cons_append, nil_append, cons.injEq] at heq
  obtain ⟨hid, heq⟩ := ComplianceKeyId.encode_append_inj hki hk' heq.2
  rw [vector_append_inj, vector_append_inj, vector_append_inj, vector_append_inj,
    Vector.toList_inj] at heq
  cases a
  cases b
  simp_all

theorem SegmentHeader.encode_eq_ok {header : SegmentHeader} (h : header.encode prim = .ok bytes) :
    ∃ keyId wrapped, header.keyId.encode = .ok keyId ∧ header.wrappedEpochKey.encode = .ok wrapped ∧
      bytes = headerMagic ++ [segmentVersion] ++ header.segmentId.toList ++ keyId
        ++ beBytes 8 header.openedAtMs.toNat ++ beBytes 4 header.maxRecords.toNat
        ++ header.signerPublicKey.toList ++ wrapped := by
  simp only [encode, ok_iff] at h
  obtain ⟨_, -, keyId, hki, wrapped, hw, hb⟩ := h
  exact ⟨keyId, wrapped, hki, hw, hb.symm⟩

theorem SegmentHeader.encode_inj {a b : SegmentHeader} (ha : a.encode prim = .ok bytes)
    (hb : b.encode prim = .ok bytes) : a = b := by
  obtain ⟨keyId, wrapped, hki, hw, rfl⟩ := encode_eq_ok ha
  obtain ⟨keyId', wrapped', hk', hw', heq⟩ := encode_eq_ok hb
  simp only [append_assoc] at heq
  rw [append_inj_of_length rfl, append_inj_of_length rfl, vector_append_inj] at heq
  obtain ⟨-, -, hs, heq⟩ := heq
  obtain ⟨hid, heq⟩ := ComplianceKeyId.encode_append_inj hki hk' heq
  rw [append_inj_of_length (by simp), append_inj_of_length (by simp), vector_append_inj,
    beBytes_uint64_inj, beBytes_uint32_inj] at heq
  obtain ⟨ho, hm, hsig, rfl⟩ := heq
  have hwk := WrappedEpochKey.encode_inj hw hw'
  cases a
  simp_all

theorem SegmentFooter.encode_injective : Function.Injective SegmentFooter.encode := by
  intro a b heq
  simp only [encode, append_assoc] at heq
  rw [append_inj_of_length rfl, append_inj_of_length rfl, append_inj_of_length (by simp),
    vector_append_inj, vector_append_inj, append_inj_of_length (by simp), beBytes_uint32_inj,
    beBytes_uint64_inj, Vector.toList_inj] at heq
  cases a
  simp_all

theorem frameChainPreimage_inj {sequence sequence' : UInt64} {previous previous' : Bytes32}
    {nonce nonce' : Vector UInt8 24} {ciphertext ciphertext' : Bytes} :
    frameChainPreimage sequence previous nonce ciphertext
        = frameChainPreimage sequence' previous' nonce' ciphertext' ↔
      sequence = sequence' ∧ previous = previous' ∧ nonce = nonce' ∧ ciphertext = ciphertext' := by
  simp only [frameChainPreimage, append_assoc]
  rw [append_inj_of_length rfl, append_inj_of_length (by simp), vector_append_inj,
    vector_append_inj, beBytes_uint64_inj]
  simp

/-! ## Verified segments -/

/-- The frames lead from one chain hash to another. -/
abbrev FrameChain (prim : CryptoPrimitives) : Bytes32 → List SealedFrame → Bytes32 → Prop :=
  HashChain.Chained prim.sha256
    (fun previous frame =>
      frameChainPreimage frame.sequence previous frame.nonce frame.ciphertext)
    SealedFrame.chainHash

theorem verifyFrames_chain {purpose : CompliancePurpose} {width count sequence : ℕ}
    {previous last : Bytes32} {frames : List SealedFrame}
    (h : verifyFrames prim purpose width count sequence previous bytes = .ok (frames, last)) :
    FrameChain prim previous frames last ∧ frames.length = count := by
  induction count generalizing sequence previous bytes frames with
  | zero =>
    obtain ⟨rfl, rfl⟩ := h
    exact ⟨rfl, rfl⟩
  | succ _ ih =>
    simp only [verifyFrames, verifyFrame, ok_iff, not_or, not_not] at h
    obtain ⟨frame, -, _, ⟨⟨-, hh⟩, -⟩, ⟨rest, last'⟩, hr, heq⟩ := h
    obtain ⟨rfl, rfl⟩ := heq
    obtain ⟨hc, hl⟩ := ih hr
    exact ⟨⟨hh, hc⟩, by rw [length_cons, hl]⟩

variable {segment : VerifiedSegment}

theorem verifySegmentBytes_chain (h : verifySegmentBytes prim bytes = .ok segment) :
    ∃ headerHash, segment.header.hash prim = .ok headerHash ∧
      FrameChain prim headerHash segment.frames segment.footer.finalChainHash ∧
      segment.frames.length = segment.footer.recordCount.toNat := by
  simp only [verifySegmentBytes, ok_iff, not_or, not_not] at h
  obtain ⟨-, header, -, footer, -, -, width, -, -, headerHash, hh, ⟨frames, last⟩, hf,
    ⟨-, rfl⟩, _, -, -, rfl⟩ := h
  obtain ⟨hc, hl⟩ := verifyFrames_chain hf
  exact ⟨headerHash, hh, hc, hl⟩

def VerifiedSegment.hashInputs (prim : CryptoPrimitives) (segment : VerifiedSegment) : List Bytes :=
  match segment.header.encode prim with
  | .error _ => []
  | .ok header =>
    header :: segment.footer.encode :: HashChain.inputs
      (fun previous frame =>
        frameChainPreimage frame.sequence previous frame.nonce frame.ciphertext)
      SealedFrame.chainHash (prim.sha256 header) segment.frames

theorem verifySegmentBytes_unique {bytes' : Bytes} {a b : VerifiedSegment}
    (hfree : Set.InjOn prim.sha256 {x | x ∈ a.hashInputs prim ∨ x ∈ b.hashInputs prim})
    (ha : verifySegmentBytes prim bytes = .ok a) (hb : verifySegmentBytes prim bytes' = .ok b)
    (hh : a.header.hash prim = b.header.hash prim)
    (hf : a.footer.hash prim = b.footer.hash prim) : a = b := by
  obtain ⟨headerHash, hhash, hc, hl⟩ := verifySegmentBytes_chain ha
  obtain ⟨headerHash', hh', hc', hl'⟩ := verifySegmentBytes_chain hb
  cases hhash.symm.trans (hh.trans hh')
  obtain ⟨encoded, he, heq⟩ := map_eq_ok.mp hhash
  obtain ⟨encoded', he', heq'⟩ := map_eq_ok.mp hh'
  simp only [VerifiedSegment.hashInputs, he, he', heq, heq', mem_cons] at hfree
  have hsh : encoded = encoded' := hfree (.inl (.inl rfl)) (.inr (.inl rfl)) (heq.trans heq'.symm)
  have hsf : a.footer = b.footer :=
    SegmentFooter.encode_injective (hfree (.inl (.inr (.inl rfl))) (.inr (.inr (.inl rfl))) hf)
  rw [hsf] at hc hl
  have hinput : ∀ (p q : Bytes32) (f g : SealedFrame),
      frameChainPreimage f.sequence p f.nonce f.ciphertext
        = frameChainPreimage g.sequence q g.nonce g.ciphertext →
      f.chainHash = g.chainHash → p = q ∧ f = g := by
    intro p q f g hp hcar
    obtain ⟨hs, hpre, hn, hcip⟩ := frameChainPreimage_inj.mp hp
    cases f
    simp_all
  have hfra := hc.unique hinput
    (hfree.mono fun x hx => hx.imp (fun h => .inr (.inr h)) fun h => .inr (.inr h)) hc'
    (hl.trans hl'.symm)
  obtain ⟨header, frames, footer⟩ := a
  obtain ⟨header', frames', footer'⟩ := b
  simp only [VerifiedSegment.mk.injEq]
  exact ⟨SegmentHeader.encode_inj he (hsh ▸ he'), hfra.2, hsf⟩

/-! ## Traces -/

/-- The entry has the hashes of the segment. -/
structure EpochSegmentEntry.Matches (prim : CryptoPrimitives) (entry : EpochSegmentEntry)
    (segment : VerifiedSegment) : Prop where
  header : segment.header.hash prim = .ok entry.headerHash
  footer : segment.footer.hash prim = entry.footerHash

theorem EpochManifestVerifier.verifyNext_eq_ok {next : EpochManifestVerifier}
    (h : verifier.verifyNext prim segment = .ok next) :
    ∃ entry, verifier.manifest.segments[verifier.nextIndex]? = some entry ∧
      entry.Matches prim segment ∧ next.manifest = verifier.manifest ∧
      next.nextIndex = verifier.nextIndex + 1 := by
  unfold verifyNext at h
  split at h
  · cases h
  · rename_i entry he
    simp only [ok_iff, not_or, not_not] at h
    obtain ⟨headerHash, hh, ⟨-, -, -, -, -, rfl, hf, -⟩, -, rfl⟩ := h
    exact ⟨entry, he, ⟨hh, hf⟩, rfl, rfl⟩

/-- A trace that passes from a position on matches the entries from that position on. -/
theorem EpochManifestVerifier.verifyAll_matches
    {segments : List VerifiedSegment} (h : verifier.verifyAll prim segments = .ok ()) :
    List.Forall₂ (EpochSegmentEntry.Matches prim)
      (verifier.manifest.segments.drop verifier.nextIndex) segments := by
  induction segments generalizing verifier with
  | nil =>
    simp only [verifyAll, finish, ok_iff, not_or, not_not] at h
    rw [h.1.1, drop_length]
    exact .nil
  | cons _ _ ih =>
    simp only [verifyAll, ok_iff] at h
    obtain ⟨next, hn, hr⟩ := h
    obtain ⟨entry, he, hmat, hman, hindex⟩ := verifyNext_eq_ok hn
    obtain ⟨hlt, hg⟩ := List.getElem?_eq_some_iff.mp he
    rw [List.drop_eq_getElem_cons hlt, hg]
    have hm := ih hr
    rw [hman, hindex] at hm
    exact .cons hmat hm

def traceHashInputs (prim : CryptoPrimitives) (segments : List VerifiedSegment) : List Bytes :=
  segments.flatMap (VerifiedSegment.hashInputs prim)

theorem matches_unique {entries : List EpochSegmentEntry} {first second : List VerifiedSegment}
    (hfree : Set.InjOn prim.sha256
      {x | x ∈ traceHashInputs prim first ∨ x ∈ traceHashInputs prim second})
    (hf : ∀ segment ∈ first, ∃ bytes, verifySegmentBytes prim bytes = .ok segment)
    (hs : ∀ segment ∈ second, ∃ bytes, verifySegmentBytes prim bytes = .ok segment)
    (h : List.Forall₂ (EpochSegmentEntry.Matches prim) entries first)
    (h' : List.Forall₂ (EpochSegmentEntry.Matches prim) entries second) : first = second := by
  induction h generalizing second with
  | nil => exact (forall₂_nil_left_iff.mp h').symm
  | @cons entry a entries first hm hr ih =>
    obtain ⟨b, second, hm', hr', rfl⟩ := forall₂_cons_left_iff.mp h'
    simp only [traceHashInputs, flatMap_cons, mem_append] at hfree
    obtain ⟨bytes, ha⟩ := hf a mem_cons_self
    obtain ⟨bytes', hb⟩ := hs b mem_cons_self
    have hh : a = b := verifySegmentBytes_unique (hfree.mono fun x hx => hx.imp .inl .inl) ha hb
      (hm.header.trans hm'.header.symm) (hm.footer.trans hm'.footer.symm)
    have ht : first = second := ih (hfree.mono fun x hx => hx.imp .inr .inr)
      (fun segment hmem => hf segment (mem_cons_of_mem _ hmem))
      (fun segment hmem => hs segment (mem_cons_of_mem _ hmem)) hr'
    rw [hh, ht]

/-- A terminal manifest pins exactly one trace: where SHA-256 has no collision among what
the checks of two traces hash, two sequences of verified segments that both pass the
verifier from start to finish are equal. The manifest need not even be valid. -/
theorem epochManifest_pins_trace (prim : CryptoPrimitives) (manifest : EpochManifest)
    (first second : List VerifiedSegment)
    (hfirst : ∀ segment ∈ first, ∃ bytes, verifySegmentBytes prim bytes = .ok segment)
    (hsecond : ∀ segment ∈ second, ∃ bytes, verifySegmentBytes prim bytes = .ok segment)
    (hpass : manifest.verifier.verifyAll prim first = .ok ())
    (hpass' : manifest.verifier.verifyAll prim second = .ok ())
    (hfree : Set.InjOn prim.sha256
      {x | x ∈ traceHashInputs prim first ∨ x ∈ traceHashInputs prim second}) :
    first = second :=
  matches_unique hfree hfirst hsecond (EpochManifestVerifier.verifyAll_matches hpass)
    (EpochManifestVerifier.verifyAll_matches hpass')

theorem injOn_lists {α β : Type} {f : α → β} {xs ys : List α}
    (h : ∀ x ∈ xs ++ ys, ∀ y ∈ xs ++ ys, f x = f y → x = y) : Set.InjOn f {x | x ∈ xs ∨ x ∈ ys} :=
  fun x hx y hy => h x (mem_append.mpr hx) y (mem_append.mpr hy)

theorem epochManifest_pins_sample_trace :
    sampleManifest.validateStructure samplePrimitives = .ok () ∧
      (∀ segment ∈ sampleTrace,
        verifySegmentBytes samplePrimitives segment.sampleBytes = .ok segment) ∧
      [sampleSegment 11 [1, 2], sampleSegment 12 [3, 4]] = sampleTrace := by
  have hv : ∀ segment ∈ sampleTrace,
      verifySegmentBytes samplePrimitives segment.sampleBytes = .ok segment := by decide +kernel
  have hp : sampleManifest.verifier.verifyAll samplePrimitives sampleTrace = .ok () := by
    decide +kernel
  refine ⟨by decide +kernel, hv, ?_⟩
  refine epochManifest_pins_trace samplePrimitives sampleManifest _ _ ?_ ?_ hp hp (injOn_lists ?_)
  · exact fun segment hm => ⟨_, hv segment hm⟩
  · exact fun segment hm => ⟨_, hv segment hm⟩
  · decide +kernel

end Pigeonpost
