import Pigeonpost.Program.Disclosure.Ledger
import Pigeonpost.Verification.Disclosure.Leaf
import Pigeonpost.Verification.Log.Frontier

/-! # Leaves and the indexes rebuilt from them -/

namespace Pigeonpost

open MerkleFrontier List

/-! ## The ledger file of a list of leaves -/

/-- The file that holds exactly these leaves. -/
def logBytes (leaves : List Bytes) : Bytes := logMagic ++ leaves.flatMap ledgerRecord

@[simp] theorem length_ledgerRecord (encoded : Bytes) :
    (ledgerRecord encoded).length = 4 + encoded.length := by
  simp [ledgerRecord]

@[simp] theorem logBytes_nil : logBytes [] = logMagic := rfl

@[simp] theorem logBytes_append_singleton (leaves : List Bytes) (encoded : Bytes) :
    logBytes (leaves ++ [encoded]) = logBytes leaves ++ ledgerRecord encoded := by
  simp [logBytes]

variable {leaves more : List Bytes}

theorem logBytes_isPrefix (h : leaves <+: more) : logBytes leaves <+: logBytes more := by
  obtain ⟨rest, rfl⟩ := h
  exact ⟨rest.flatMap ledgerRecord, by simp [logBytes]⟩

/-- A record tells where it ends. -/
theorem eq_of_ledgerRecord_isPrefix {a b : Bytes} (ha : a.length ≤ maxLeafBytes)
    (hb : b.length ≤ maxLeafBytes) (h : ledgerRecord a <+: ledgerRecord b) : a = b := by
  have hm : maxLeafBytes = 4096 := rfl
  obtain ⟨rest, hr⟩ := h
  rw [ledgerRecord, ledgerRecord, append_assoc, append_inj_of_length (by simp),
    beBytes_inj (by omega) (by omega)] at hr
  obtain ⟨hl, hbytes⟩ := hr
  have hn : rest = [] := by
    have hc := congrArg length hbytes
    rw [length_append] at hc
    exact length_eq_zero_iff.mp (by omega)
  rwa [hn, append_nil] at hbytes

theorem isPrefix_of_logBytes
    (hl : ∀ encoded ∈ leaves, encoded.length ≤ maxLeafBytes)
    (hm : ∀ encoded ∈ more, encoded.length ≤ maxLeafBytes)
    (h : logBytes leaves <+: logBytes more) : leaves <+: more := by
  rw [logBytes, logBytes, prefix_append_right_inj] at h
  induction leaves generalizing more with
  | nil => exact nil_prefix
  | cons first _ ih =>
    cases more with
    | nil =>
      have hlen := h.length_le
      simp at hlen
    | cons other =>
      rw [flatMap_cons, flatMap_cons] at h
      have hf := hl first mem_cons_self
      have ho := hm other mem_cons_self
      have heq : first = other := by
        rcases prefix_or_prefix_of_prefix ((prefix_append _ _).trans h)
          (prefix_append (ledgerRecord other) _) with hb | hb
        · exact eq_of_ledgerRecord_isPrefix hf ho hb
        · exact (eq_of_ledgerRecord_isPrefix ho hf hb).symm
      subst heq
      rw [prefix_append_right_inj] at h
      exact (prefix_cons_inj first).mpr (ih (fun encoded hmem => hl encoded (mem_cons_of_mem _
        hmem)) (fun encoded hmem => hm encoded (mem_cons_of_mem _ hmem)) h)

theorem logMagic_isPrefix (leaves : List Bytes) : logMagic <+: logBytes leaves :=
  prefix_append _ _

theorem readExact_append {before slice after : Bytes} {offset width : ℕ}
    (ho : before.length = offset) (hw : slice.length = width) :
    readExact (before ++ (slice ++ after)) offset width = .ok slice := by
  rw [readExact, take_drop_append ho hw, if_neg (by omega)]

section Replay

variable {H : Type} [Sha256 H]
variable {leaves : List Bytes} {index : LedgerIndex H}

/-! ## Replays -/

/-- The indexes a process has after taking in these leaves one after another. -/
inductive Replays : List Bytes → LedgerIndex H → Prop where
  | nil : Replays [] .new
  | snoc {leaves : List Bytes} {index next : LedgerIndex H} {encoded : Bytes}
    {leaf : DisclosureLeaf} (rest : Replays leaves index)
    (count : leaves.length < maxDisclosureLeaves) (nonempty : encoded ≠ [])
    (size : encoded.length ≤ maxLeafBytes) (decoded : DisclosureLeaf.decode encoded = .ok leaf)
    (valid : index.validateLeaf leaf = .ok ())
    (absorbed : index.absorbLeaf ((logBytes leaves).length + 4) encoded leaf = .ok next) :
    Replays (leaves ++ [encoded]) next

/-- What the indexes say about the leaves. -/
structure LedgerIndex.Describes (index : LedgerIndex H) (leaves : List Bytes) : Prop where
  frontier : index.frontier = .ofLeaves (leaves.map leafHash)
  root : index.root = logRoot (leaves.map leafHash)
  offsets_length : index.leafOffsets.length = leaves.length
  offsets : ∀ i < leaves.length,
    index.leafOffsets[i]? = some ((logBytes (leaves.take i)).length + 4)
  tailFrontier : index.proofTailFrontier = .ofLeaves index.proofTailHashes
  tail_lt : index.proofTailHashes.length < proofBlockLeaves

namespace LedgerIndex

theorem Describes.leafCount (h : index.Describes leaves) : index.leafCount = leaves.length := by
  rw [LedgerIndex.leafCount, h.frontier, ofLeaves_size, length_map]

theorem describes_new : (new : LedgerIndex H).Describes [] where
  frontier := ofLeaves_nil.symm
  root := by simp [new, logRoot]
  offsets_length := rfl
  offsets i hi := absurd hi (Nat.not_lt_zero i)
  tailFrontier := ofLeaves_nil.symm
  tail_lt := Nat.zero_lt_succ _

/-- One more hash always finds its place. -/
theorem exists_absorbHash (hl : index.frontier = .ofLeaves (leaves.map leafHash))
    (hth : index.proofTailFrontier = .ofLeaves index.proofTailHashes)
    (ht : index.proofTailHashes.length < proofBlockLeaves)
    (hc : leaves.length < maxDisclosureLeaves) (encoded : Bytes) :
    ∃ next, index.absorbHash (leafHash encoded) = .ok next ∧
      next.frontier = .ofLeaves ((leaves ++ [encoded]).map leafHash) ∧
      next.root = logRoot ((leaves ++ [encoded]).map leafHash) ∧
      next.leafOffsets = index.leafOffsets ∧
      next.proofTailFrontier = .ofLeaves next.proofTailHashes ∧
      next.proofTailHashes.length < proofBlockLeaves := by
  have hm : maxDisclosureLeaves = 100000 := rfl
  have hb : proofBlockLeaves = 1024 := rfl
  have hm64 : u64Max = 2 ^ 64 - 1 := rfl
  have hf : index.frontier.appendHash (leafHash encoded) =
      some (.ofLeaves ((leaves ++ [encoded]).map leafHash), leaves.length) := by
    rw [hl, appendHash_ofLeaves (by rw [length_map]; omega)]
    simp
  have hr : (ofLeaves ((leaves ++ [encoded]).map leafHash : List H)).root =
      some (logRoot ((leaves ++ [encoded]).map leafHash)) :=
    root_ofLeaves (by rw [length_map]; simp; omega)
  have htf : index.proofTailFrontier.appendHash (leafHash encoded) =
      some (.ofLeaves (index.proofTailHashes ++ [leafHash encoded]),
        index.proofTailHashes.length) := by
    rw [hth, appendHash_ofLeaves (by omega)]
  have htr : (ofLeaves (index.proofTailHashes ++ [leafHash encoded])).root =
      some (logRoot (index.proofTailHashes ++ [leafHash encoded])) :=
    root_ofLeaves (by rw [length_append]; simp; omega)
  by_cases hfull : (index.proofTailHashes ++ [leafHash encoded]).length = proofBlockLeaves
  · simp only [absorbHash, hf, hr, htf, htr, okOr_some, ok_bind, if_pos hfull]
    exact ⟨_, rfl, rfl, rfl, rfl, ofLeaves_nil.symm, Nat.zero_lt_succ _⟩
  · simp only [absorbHash, hf, hr, htf, okOr_some, ok_bind, if_neg hfull]
    refine ⟨_, rfl, rfl, rfl, rfl, rfl, ?_⟩
    rw [length_append, length_singleton] at hfull ⊢
    omega

omit [Sha256 H] in
theorem recordLeafState_frame (index : LedgerIndex H) (leaf : DisclosureLeaf) (sequence : ℕ) :
    (index.recordLeafState leaf sequence).frontier = index.frontier ∧
      (index.recordLeafState leaf sequence).root = index.root ∧
      (index.recordLeafState leaf sequence).leafOffsets = index.leafOffsets ∧
      (index.recordLeafState leaf sequence).proofTailFrontier = index.proofTailFrontier ∧
      (index.recordLeafState leaf sequence).proofTailHashes = index.proofTailHashes := by
  cases leaf <;> exact ⟨rfl, rfl, rfl, rfl, rfl⟩

/-- One more leaf always finds its place. -/
theorem Describes.exists_absorbLeaf (h : index.Describes leaves)
    (hc : leaves.length < maxDisclosureLeaves) (encoded : Bytes) (leaf : DisclosureLeaf) :
    ∃ next, index.absorbLeaf ((logBytes leaves).length + 4) encoded leaf = .ok next ∧
      next.Describes (leaves ++ [encoded]) := by
  let moved : LedgerIndex H :=
    { index with leafOffsets := index.leafOffsets ++ [(logBytes leaves).length + 4] }
  obtain ⟨hashed, ha, hfro, hroot, hoff, htaf, ht⟩ :=
    exists_absorbHash (show moved.frontier = _ from h.frontier) h.tailFrontier h.tail_lt hc encoded
  obtain ⟨hf, hr, ho, htf, hth⟩ := hashed.recordLeafState_frame leaf index.leafCount
  refine ⟨hashed.recordLeafState leaf index.leafCount, ?_, ?_⟩
  · rw [absorbLeaf, ha]
    rfl
  · refine ⟨hf.trans hfro, hr.trans hroot, ?_, ?_, by rw [htf, hth, htaf], by rw [hth]; exact ht⟩
    · rw [ho, hoff, length_append, length_append, h.offsets_length]
      rfl
    · intro i hi
      rw [length_append, length_singleton] at hi
      rw [ho, hoff]
      by_cases hl : i < leaves.length
      · rw [getElem?_append_left (by rw [h.offsets_length]; exact hl), h.offsets i hl,
          take_append_of_le_length hl.le]
      · obtain rfl : i = leaves.length := by omega
        rw [← h.offsets_length, getElem?_append_right le_rfl, Nat.sub_self,
          h.offsets_length, take_append_of_le_length le_rfl, take_length]
        rfl

end LedgerIndex

variable {encoded : Bytes}

namespace Replays

variable {leaves : List Bytes} {index : LedgerIndex H}

theorem describes (h : Replays leaves index) : index.Describes leaves := by
  induction h with
  | nil => exact LedgerIndex.describes_new
  | @snoc leaves index next encoded leaf _ count _ _ _ _ absorbed ih =>
    obtain ⟨next', ha, hn⟩ := ih.exists_absorbLeaf count encoded leaf
    cases absorbed.symm.trans ha
    exact hn

theorem length_le (h : Replays leaves index) : leaves.length ≤ maxDisclosureLeaves := by
  cases h with
  | nil => exact Nat.zero_le _
  | snoc _ count =>
    rw [length_append]
    exact count

/-- The ledger of a full log stays far below the largest file. -/
theorem length_logBytes_le (h : Replays leaves index) :
    (logBytes leaves).length ≤ 8 + leaves.length * 4100 := by
  induction h with
  | nil => exact le_rfl
  | @snoc leaves _ _ encoded _ _ _ _ size _ _ _ ih =>
    have : maxLeafBytes = 4096 := rfl
    rw [logBytes_append_singleton, length_append, length_ledgerRecord, length_append,
      length_singleton]
    omega

theorem of_append_singleton (h : Replays (leaves ++ [encoded]) index) :
    ∃ before leaf, Replays leaves before ∧ leaves.length < maxDisclosureLeaves ∧
      encoded ≠ [] ∧ encoded.length ≤ maxLeafBytes ∧ DisclosureLeaf.decode encoded = .ok leaf ∧
      before.validateLeaf leaf = .ok () ∧
      before.absorbLeaf ((logBytes leaves).length + 4) encoded leaf = .ok index := by
  generalize ha : leaves ++ [encoded] = all at h
  cases h with
  | nil => simp at ha
  | @snoc leaves' before _ encoded' leaf rest count nonempty size decoded valid absorbed =>
    obtain ⟨rfl, hl⟩ := append_inj' ha rfl
    obtain rfl := singleton_injective hl
    exact ⟨before, leaf, rest, count, nonempty, size, decoded, valid, absorbed⟩

theorem unique {other : LedgerIndex H} (h : Replays leaves index) (ho : Replays leaves other) :
    index = other := by
  induction h generalizing other with
  | nil =>
    generalize hn : ([] : List Bytes) = none at ho
    cases ho with
    | nil => rfl
    | snoc => simp at hn
  | snoc _ _ _ _ decoded _ absorbed ih =>
    obtain ⟨before, leaf, hb, -, -, -, hd, -, ha⟩ := ho.of_append_singleton
    obtain rfl := ih hb
    cases decoded.symm.trans hd
    exact Except.ok.inj (absorbed.symm.trans ha)

end Replays

/-! ## Streaming -/

def lastHash (leaves : List Bytes) : Option H := leaves.getLast?.map leafHash

@[simp] theorem lastHash_append_singleton (leaves : List Bytes) (encoded : Bytes) :
    (lastHash (leaves ++ [encoded]) : Option H) = some (leafHash encoded) := by
  simp [lastHash]

theorem readExact_length (leaves : List Bytes) (encoded tail : Bytes) :
    readExact (logBytes (leaves ++ [encoded]) ++ tail) (logBytes leaves).length 4 =
      .ok (beBytes 4 encoded.length) := by
  rw [logBytes_append_singleton, append_assoc]
  exact readExact_append rfl (length_beBytes 4 _)

theorem readExact_payload (leaves : List Bytes) (encoded tail : Bytes) :
    readExact (logBytes (leaves ++ [encoded]) ++ tail) ((logBytes leaves).length + 4)
      encoded.length = .ok encoded := by
  rw [logBytes_append_singleton, ledgerRecord, ← append_assoc, append_assoc]
  exact readExact_append (by simp) rfl

theorem readBE_length (h : encoded.length ≤ maxLeafBytes) :
    readBE (beBytes 4 encoded.length) = encoded.length := by
  have hm : maxLeafBytes = 4096 := rfl
  exact readBE_beBytes (by omega)

theorem readRecordAt_logBytes {tail : Bytes} {maximumEnd : ℕ} (hne : encoded ≠ [])
    (hs : encoded.length ≤ maxLeafBytes)
    (he : (logBytes leaves).length + 4 + encoded.length ≤ maximumEnd) :
    readRecordAt (logBytes (leaves ++ [encoded]) ++ tail) ((logBytes leaves).length + 4)
        maximumEnd =
      .ok (encoded, (logBytes leaves).length + 4 + encoded.length) := by
  have hp := length_pos_iff.mpr hne
  rw [readRecordAt, if_neg (by omega), Nat.add_sub_cancel, readExact_length, ok_bind,
    readBE_length hs, if_neg (by omega), if_neg (by omega), readExact_payload]
  rfl

/-- Streaming the committed prefix rebuilds the indexes, whatever lies behind it. -/
theorem streamRecords_replays (h : Replays leaves index) {content : Bytes} {logLen : ℕ}
    (hc : logBytes leaves <+: content) (hl : (logBytes leaves).length ≤ logLen) :
    streamRecords content logLen logMagic.length (.new : LedgerIndex H) none =
      streamRecords content logLen (logBytes leaves).length index (lastHash leaves) := by
  induction h with
  | nil => rfl
  | @snoc leaves before next encoded leaf rest count nonempty size decoded valid absorbed ih =>
    obtain ⟨tail, rfl⟩ := hc
    have hs : logBytes leaves <+: logBytes (leaves ++ [encoded]) ++ tail :=
      (logBytes_isPrefix (prefix_append _ _)).trans (prefix_append _ _)
    rw [logBytes_append_singleton, length_append, length_ledgerRecord] at hl
    have hr : readRecordAt (logBytes (leaves ++ [encoded]) ++ tail)
        ((logBytes leaves).length + 4) logLen =
          .ok (encoded, (logBytes leaves).length + 4 + encoded.length) :=
      readRecordAt_logBytes nonempty size (by omega)
    rw [ih hs (by omega), streamRecords, if_pos (by omega),
      if_neg (by rw [rest.describes.leafCount]; omega)]
    split
    next e he =>
      cases hr.symm.trans he
    next encoded' recordEnd hok =>
      cases hr.symm.trans hok
      rw [decoded, ok_bind, valid, ok_bind, absorbed, ok_bind, logBytes_append_singleton,
        length_append, length_ledgerRecord, lastHash_append_singleton, Nat.add_assoc]

/-! ## Preparing an append -/

namespace DisclosureLedger

variable {ledger : DisclosureLedger H} {leaf : DisclosureLeaf} {prepared : PreparedAppend H}

theorem absorbLeaf_prepared (h : ledger.prepareAppend leaf = .ok prepared) (payloadOffset : ℕ) :
    ledger.index.absorbLeaf payloadOffset prepared.encoded leaf =
      .ok (publishIndex ledger.index prepared leaf payloadOffset) := by
  simp only [prepareAppend, ok_iff, Prod.exists] at h
  obtain ⟨-, -, -, -, encoded, -, -, frontier, _, hf, root, hr, tailFrontier, _, ht, h⟩ := h
  by_cases hfull : ledger.index.proofTailHashes.length + 1 = proofBlockLeaves
  · rw [if_pos hfull] at h
    simp only [ok_iff, map_eq_ok] at h
    obtain ⟨block, ⟨blockRoot, hb, rfl⟩, rfl⟩ := h
    simp only [LedgerIndex.absorbLeaf, LedgerIndex.absorbHash, hf, hr, ht, hb,
      okOr_some, ok_bind, length_append, length_singleton, if_pos hfull]
    rfl
  · rw [if_neg hfull] at h
    obtain ⟨block, rfl, rfl⟩ := h
    simp only [LedgerIndex.absorbLeaf, LedgerIndex.absorbHash, hf, hr, ht,
      okOr_some, ok_bind, length_append, length_singleton, if_neg hfull]
    rfl

theorem replays_prepared (hr : Replays leaves ledger.index)
    (h : ledger.prepareAppend leaf = .ok prepared) :
    leaf.encode = .ok prepared.encoded ∧ prepared.hash = leafHash prepared.encoded ∧
      Replays (leaves ++ [prepared.encoded])
        (publishIndex ledger.index prepared leaf ((logBytes leaves).length + 4)) := by
  have ha := absorbLeaf_prepared h ((logBytes leaves).length + 4)
  simp only [prepareAppend, ok_iff, Prod.exists] at h
  obtain ⟨-, hc, _, hv, encoded, he, hs, frontier, _, -, root, -, tailFrontier, _, -, h⟩ := h
  have hp : prepared.encoded = encoded ∧ prepared.hash = leafHash encoded := by
    by_cases hf : ledger.index.proofTailHashes.length + 1 = proofBlockLeaves
    · rw [if_pos hf] at h
      simp only [ok_iff] at h
      obtain ⟨block, -, rfl⟩ := h
      exact ⟨rfl, rfl⟩
    · rw [if_neg hf] at h
      obtain ⟨block, -, rfl⟩ := h
      exact ⟨rfl, rfl⟩
  rw [leafCount, hr.describes.leafCount] at hc
  rw [hp.1, hp.2]
  refine ⟨he, rfl, ?_⟩
  rw [hp.1] at ha
  exact hr.snoc (by omega) (length_pos_iff.mp (DisclosureLeaf.length_encode_pos he))
    (by omega) (DisclosureLeaf.decode_encode he) hv ha

end DisclosureLedger

/-! ## Reading leaves back -/

theorem Replays.size (h : Replays leaves index) :
    ∀ encoded ∈ leaves, encoded ≠ [] ∧ encoded.length ≤ maxLeafBytes := by
  induction h with
  | nil => simp
  | snoc _ _ nonempty size _ _ _ ih =>
    exact forall_mem_append.mpr ⟨ih, forall_mem_singleton.mpr ⟨nonempty, size⟩⟩

theorem DisclosureLedger.encodedLeaf_eq {ledger : DisclosureLedger H}
    (h : Replays leaves ledger.index) {disk : Disk} (hs : logBytes leaves <+: disk.content)
    (i : ℕ) : ledger.encodedLeaf disk i = .ok leaves[i]? := by
  have hc : ledger.leafCount = leaves.length := h.describes.leafCount
  rw [encodedLeaf]
  by_cases hi : i < leaves.length
  · have ht : leaves.take i ++ [leaves[i]] <+: leaves := by
      rw [← take_succ_eq_append_getElem hi]
      exact take_prefix _ _
    obtain ⟨tail, htail⟩ := (logBytes_isPrefix ht).trans hs
    obtain ⟨hne, hsize⟩ := h.size leaves[i] (getElem_mem hi)
    have hp := length_pos_iff.mpr hne
    rw [if_neg (by omega), h.describes.offsets i hi, okOr_some, ok_bind, Nat.add_sub_cancel,
      ← htail, readExact_length, ok_bind, readBE_length hsize, if_neg (by omega),
      readExact_payload, getElem?_eq_getElem hi]
    rfl
  · rw [if_pos (by omega), getElem?_eq_none (by omega)]

end Replay

end Pigeonpost
