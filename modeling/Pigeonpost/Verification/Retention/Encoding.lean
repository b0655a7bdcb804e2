import Pigeonpost.Verification.Disclosure.Leaf
import Pigeonpost.Verification.Retention.Valid

/-! # What an encoded inventory reads back as

A valid inventory reads back as itself, unless a receipt of it refers to a predecessor
whose hash is zero: the reader takes a zero for a missing value. -/

namespace Pigeonpost

open Reader Reads LegalHoldReceipt

variable {prim : CryptoPrimitives}

/-! ## Fields -/

namespace InventoryReader

theorem reads_u8 (value : UInt8) : Reads u8 [value] value True :=
  congr (bind_last (reads_take _ (rfl : ([value] : Bytes).length = 1)) (reads_pure value))
    and_self_iff

theorem reads_u16 (value : UInt16) : Reads u16 (beBytes 2 value.toNat) value True := by
  refine congr (bind_last (reads_take _ (length_beBytes 2 _)) ?_) (and_self_iff)
  rw [readBE_beBytes value.toNat_lt, UInt16.ofNat_toNat]
  exact reads_pure value

theorem reads_u64 (value : UInt64) : Reads u64 (beBytes 8 value.toNat) value True := by
  refine congr (bind_last (reads_take _ (length_beBytes 8 _)) ?_) (and_self_iff)
  rw [readBE_beBytes value.toNat_lt, UInt64.ofNat_toNat]
  exact reads_pure value

theorem reads_array32 (value : Bytes32) : Reads array32 value.toList value True := by
  refine congr (bind_last (reads_take _ (by simp)) ?_) (and_self_iff)
  rw [bytes32_toList]
  exact reads_pure value

theorem reads_array64 (value : Vector UInt8 64) : Reads array64 value.toList value True := by
  refine congr (bind_last (reads_take _ (by simp)) ?_) (and_self_iff)
  simpa [copyArray] using reads_pure value

open List

/-- A zero value is not read back. -/
theorem reads_optional32 (value : Option Bytes32) :
    Reads optional32 (pushOptional32 value) value (value ≠ some zero32) := by
  cases value with
  | none =>
    have hp : pushOptional32 none = [0] ++ zero32.toList := rfl
    rw [hp]
    refine congr (step (reads_u8 0) (bind_last (reads_array32 zero32) ?_))
      (by simp : True ∧ True ↔ _)
    exact reads_pure none
  | some value =>
    refine congr (step (reads_u8 1)
      (bind_last (q := value ≠ zero32) (reads_array32 value) ?_)) (by simp)
    rw [if_neg (by simp)]
    by_cases hz : value = zero32
    · rw [if_neg (by simp [hz])]
      exact fun rest => ⟨fun h => absurd hz h, fun _ => ⟨_, rfl⟩⟩
    · rw [if_pos ⟨rfl, hz⟩]
      exact (reads_pure (some value)).congr (by simp [hz])

end InventoryReader

open InventoryReader List

/-! ## Receipts -/

theorem LegalHoldApproval.reads_decode (approval : LegalHoldApproval) :
    Reads LegalHoldApproval.decode approval.encode approval True := by
  simp only [encode, append_assoc]
  refine step (reads_array32 _) (step (reads_array32 _) (step (reads_u64 _) ?_))
  exact congr (bind_last (reads_array64 _) (reads_pure approval)) (by simp)

theorem LegalHoldReceipt.actionOfByte_toByte (action : LegalHoldReceiptAction) :
    actionOfByte action.toByte = .ok action := by
  cases action <;> rfl

/-- The receipt can be told from its encoding. -/
def LegalHoldReceipt.Readable (receipt : LegalHoldReceipt) : Prop :=
  receipt.predecessorHoldId ≠ some zero32 ∧ receipt.predecessorReceiptHash ≠ some zero32

variable {bytes : Bytes}

theorem LegalHoldReceipt.reads_decode {receipt : LegalHoldReceipt}
    (hv : receipt.validate prim = .ok ()) (he : receipt.encode = .ok bytes) :
    Reads (decode prim) bytes receipt receipt.Readable := by
  simp only [encode, ok_iff] at he
  obtain ⟨keyId, hki, rfl⟩ := he
  simp only [append_assoc, cons_append, nil_append]
  have hk := mapError_eq_ok (f := fun _ => ComplianceError.incompleteInventory).mpr
    (ComplianceKeyId.decode_encode hki)
  refine step (reads_u8 _) (ite_neg (by simp) (step (reads_u8 _) (check_bind (actionOfByte_toByte _)
    (step (reads_array32 _) (step (reads_take _ (ComplianceKeyId.length_encode hki)) (check_bind
    hk ?_))))))
  refine step (reads_u64 _) (step (reads_u64 _) (step (reads_u64 _) ?_))
  refine bind (reads_optional32 _) (bind_true (reads_optional32 _) ?_)
  refine step (reads_array32 _) (step (reads_u64 _) (step (reads_u64 _) ?_))
  refine step (reads_array32 _) (step (reads_array32 _) (step (reads_array32 _) ?_))
  refine step (reads_array32 _) (step (reads_array32 _) (step (reads_array32 _) ?_))
  refine step (LegalHoldApproval.reads_decode _)
    (congr (bind_last (LegalHoldApproval.reads_decode _) ?_) and_self_iff)
  exact check_bind hv (reads_pure receipt)

/-! ## Copies and holds -/

theorem copyKindFromByte_toByte (kind : KeyCopyKind) : copyKindFromByte kind.toByte = .ok kind := by
  cases kind <;> rfl

theorem copyStateFromByte_toByte (state : CopyState) :
    copyStateFromByte state.toByte = .ok state := by
  cases state <;> rfl

theorem inventoryStateFromByte_toByte (state : InventoryState) :
    inventoryStateFromByte state.toByte = .ok state := by
  cases state <;> rfl

theorem KeyCopy.reads_decode (copy : KeyCopy) :
    Reads KeyCopy.decode copy.encode copy (copy.destructionEvidence ≠ some zero32) := by
  simp only [encode, append_assoc, cons_append, nil_append]
  refine step (reads_array32 _) (step (reads_u8 _) (check_bind (copyKindFromByte_toByte _) (step
    (reads_u8 _) (check_bind (copyStateFromByte_toByte _) ?_))))
  exact congr (bind_last (reads_optional32 _) (reads_pure copy)) (and_true _ ▸ Iff.rfl)

/-- The hold can be told from its encoding. -/
def LegalHold.Readable (hold : LegalHold) : Prop :=
  hold.termReceipt.Readable ∧ ∀ release ∈ hold.releaseReceipt, release.Readable

def LegalHold.Valid (prim : CryptoPrimitives) (hold : LegalHold) : Prop :=
  hold.termReceipt.validate prim = .ok () ∧
    ∀ release ∈ hold.releaseReceipt, release.validate prim = .ok ()

namespace DestructionInventory

theorem reads_decodeHold {hold : LegalHold} (hv : hold.Valid prim)
    (he : encodeHold hold = .ok bytes) : Reads (decodeHold prim) bytes hold hold.Readable := by
  obtain ⟨termReceipt, releaseReceipt⟩ := hold
  cases releaseReceipt with
  | none =>
    simp only [encodeHold, ok_iff] at he
    obtain ⟨term, ht, rfl⟩ := he
    refine congr (bind_true (reads_decode hv.1 ht) ?_) (by simp [LegalHold.Readable])
    refine congr (bind_last (reads_u8 0) ?_) and_self_iff
    rw [if_pos rfl]
    exact reads_pure _
  | some release =>
    simp only [encodeHold, ok_iff] at he
    obtain ⟨term, ht, encoded, hr, rfl⟩ := he
    rw [append_assoc]
    refine congr (bind (reads_decode hv.1 ht) (step (reads_u8 1) (ite_neg (by decide)
      (ite_neg (by decide) (bind_last (reads_decode (hv.2 release rfl) hr) (reads_pure
      _))))))
      (by simp [LegalHold.Readable])

theorem reads_decodeHolds {holds : List LegalHold}
    (hv : ∀ hold ∈ holds, hold.Valid prim) (he : encodeHolds holds = .ok bytes) :
    Reads (many (decodeHold prim) holds.length) bytes holds (∀ hold ∈ holds, hold.Readable) := by
  induction holds generalizing bytes with
  | nil =>
    cases he
    exact (reads_pure []).congr (by simp)
  | cons hold holds ih =>
    simp only [encodeHolds, ok_iff] at he
    obtain ⟨encoded, hh, others, ho, rfl⟩ := he
    have hr := ih (fun x hx => hv x (mem_cons_of_mem _ hx)) ho
    have ht : Reads (do let rest ← many (decodeHold prim) holds.length; return hold :: rest)
        others (hold :: holds) ((∀ x ∈ holds, x.Readable) ∧ True) :=
      hr.bind_last (reads_pure (hold :: holds))
    exact congr ((reads_decodeHold (hv hold mem_cons_self) hh).bind ht) (by simp)

theorem reads_decodeIntegrity {integrity : Option TraceIntegrityEvidence}
    (h : integrity.any (·.terminalManifestCommitment == zero32) = false) :
    Reads (decodeIntegrity inventoryVersion) (encodeIntegrity integrity) integrity True := by
  cases integrity with
  | none =>
    refine ite_neg (by simp) (congr (bind_last (reads_u8 0) ?_) and_self_iff)
    rw [if_pos rfl]
    exact reads_pure none
  | some evidence =>
    obtain ⟨status, commitment⟩ := evidence
    simp only [Option.any_some, beq_eq_false_iff_ne, ne_eq] at h
    have hn : ∀ status, TraceIntegrityEvidence.new status commitment
        = .ok ⟨status, commitment⟩ := by
      simp [TraceIntegrityEvidence.new, h, pure, Except.pure]
    cases status with
    | verified =>
      refine ite_neg (by simp) (step (reads_u8 1) (ite_neg (by decide) (ite_neg (by decide) (congr
        (bind_last (reads_array32 commitment) (check_bind (hn _) (reads_pure _))) and_self_iff))))
    | degraded =>
      refine ite_neg (by simp) (step (reads_u8 2) (ite_neg (by decide) (ite_neg (by decide) (congr
        (bind_last (reads_array32 commitment) (check_bind (hn _) (reads_pure _))) and_self_iff))))

/-! ## Inventories -/

/-- Every hold of the inventory can be told from its encoding. -/
def Readable (inventory : DestructionInventory) : Prop :=
  ∀ hold ∈ inventory.holds, hold.Readable

end DestructionInventory

variable {prim : CryptoPrimitives} {inventory : DestructionInventory}

section

variable (h : InventoryValid prim inventory)

include h

theorem InventoryValid.holds_valid : ∀ hold ∈ inventory.holds, hold.Valid prim := by
  intro hold hm
  obtain ⟨earlier, -, hc⟩ := h.hold_checked hm
  exact ⟨hc.term, fun release hr => (hc.release release hr).1⟩

theorem InventoryValid.evidence_ne_zero :
    ∀ copy ∈ inventory.copies, copy.destructionEvidence ≠ some zero32 := by
  intro copy hm heq
  have ha := all_eq_true.mp h.copies copy hm
  cases hs : copy.state <;> simp [InventoryState.allowsCopy, hs, heq] at ha

theorem InventoryValid.reads_decodeBody {keyId holds : Bytes}
    (hki : inventory.keyId.encode = .ok keyId)
    (hh : DestructionInventory.encodeHolds inventory.holds = .ok holds) :
    Reads (DestructionInventory.decodeBody prim inventoryVersion)
      (keyId ++ ([inventory.retentionPolicy.version]
        ++ (beBytes 2 inventory.retentionPolicy.usDays.toNat
        ++ (beBytes 2 inventory.retentionPolicy.euDays.toNat
        ++ (beBytes 2 inventory.retentionPolicy.trDays.toNat
        ++ (beBytes 2 inventory.retentionPolicy.testDays.toNat
        ++ (inventory.retentionPolicy.counselApprovalCommitment.toList
        ++ (beBytes 8 inventory.createdAtMs.toNat ++ (beBytes 8 inventory.retentionUntilMs.toNat
        ++ ([inventory.state.toByte]
        ++ (DestructionInventory.encodeIntegrity inventory.traceIntegrity
        ++ ([UInt8.ofNat inventory.copies.length] ++ (inventory.copies.flatMap KeyCopy.encode
        ++ ([UInt8.ofNat inventory.holds.length] ++ holds))))))))))))))
      inventory inventory.Readable := by
  have hk := mapError_eq_ok (f := fun _ => ComplianceError.incompleteInventory).mpr
    (ComplianceKeyId.decode_encode hki)
  have hc : (UInt8.ofNat inventory.copies.length).toNat = inventory.copies.length := by
    have hle := h.copies_le
    exact Nat.mod_eq_of_lt (by unfold maxInventoryCopies at hle; omega)
  have hcount : (UInt8.ofNat inventory.holds.length).toNat = inventory.holds.length := by
    have hle := h.holds_le
    exact Nat.mod_eq_of_lt (by unfold maxInventoryHolds at hle; omega)
  have hp : UInt8.ofNat inventory.copies.length ≠ 0 := by
    intro hz
    rw [hz] at hc
    have hn := length_eq_zero_iff.mp hc.symm
    simpa [hn] using h.nonempty
  have hrc :=
    (reads_many fun copy _ => KeyCopy.reads_decode copy).congr (iff_true_intro h.evidence_ne_zero)
  refine step (reads_take _ (ComplianceKeyId.length_encode hki)) (check_bind hk ?_)
  refine step (reads_u8 _) (step (reads_u16 _) (step (reads_u16 _)
    (step (reads_u16 _) (step (reads_u16 _) (step (reads_array32 _) ?_)))))
  refine step (reads_u64 _) (step (reads_u64 _) (step (reads_u8 _)
    (check_bind (inventoryStateFromByte_toByte _) ?_)))
  refine step (DestructionInventory.reads_decodeIntegrity h.integrity)
    (step (reads_u8 _) (ite_neg ?_ ?_))
  · simp only [hc, not_or, not_lt, gt_iff_lt]
    exact ⟨hp, h.copies_le⟩
  · rw [hc]
    refine step hrc (step (reads_u8 _) (ite_neg ?_ ?_))
    · simp only [hcount, not_lt, gt_iff_lt]
      exact h.holds_le
    · rw [hcount]
      exact congr (bind_last
        (DestructionInventory.reads_decodeHolds h.holds_valid hh) (reads_pure inventory))
        (and_true _ ▸ Iff.rfl)

end

/-- The encoding of an inventory reads back as the inventory, or not at all. -/
theorem DestructionInventory.decode_encode (henc : inventory.encode prim = .ok bytes) :
    (inventory.Readable → decode prim bytes = .ok inventory) ∧
      (¬inventory.Readable → ∃ e, decode prim bytes = .error e) := by
  simp only [encode, ok_iff] at henc
  obtain ⟨_, hv, keyId, hki, holds, hh, rfl⟩ := henc
  have hbody := (validate_eq_ok.mp hv).reads_decodeBody hki hh []
  rw [append_nil] at hbody
  simp only [append_assoc]
  generalize hrest : keyId ++ _ = rest at hbody ⊢
  have hl : 107 ≤ rest.length := by
    have hkl := ComplianceKeyId.length_encode hki
    simp only [← hrest, length_append, hkl, complianceKeyIdLen, length_beBytes,
      Vector.length_toList, length_singleton]
    omega
  have hm : inventoryMagic.length = 8 := rfl
  have hb : inventoryMagic ++ ([inventoryVersion] ++ rest)
      = (inventoryMagic ++ [inventoryVersion]) ++ rest := by simp
  have hd : (inventoryMagic ++ ([inventoryVersion] ++ rest)).drop (inventoryMagic.length + 1)
      = rest := by
    rw [hb]
    exact drop_left' (by simp)
  have hver : (inventoryMagic ++ ([inventoryVersion] ++ rest)).getD inventoryMagic.length 0
      = inventoryVersion := by
    simp [getD_eq_getElem?_getD]
  have hlong : ¬((inventoryMagic ++ ([inventoryVersion] ++ rest)).length < inventoryMagic.length + 1
        + complianceKeyIdLen + (1 + 2 + 2 + 2 + 2 + 32) + 8 + 8 + 1 + 1 + 1
      ∨ (inventoryMagic ++ ([inventoryVersion] ++ rest)).take inventoryMagic.length
        ≠ inventoryMagic) := by
    simp only [length_append, hm, length_singleton, complianceKeyIdLen, not_or, not_lt, not_not]
    exact ⟨by omega, take_left' hm⟩
  unfold decode
  rw [if_neg hlong, hver, hd, if_neg (by simp)]
  constructor
  · intro hr
    rw [hbody.1 hr]
    simp [hv, pure, Except.pure]
  · intro hr
    obtain ⟨e, he⟩ := hbody.2 hr
    exact ⟨e, by rw [he]; rfl⟩

/-- Where no hash is zero, every valid inventory can be told from its encoding. -/
theorem InventoryValid.readable (h : InventoryValid prim inventory)
    (hs : ∀ bytes, prim.sha256 bytes ≠ zero32) : inventory.Readable := by
  have hh : ∀ {receipt : LegalHoldReceipt} {receiptHash : Bytes32},
      receipt.receiptHash prim = .ok receiptHash → receiptHash ≠ zero32 := by
    intro receipt receiptHash hr
    simp only [LegalHoldReceipt.receiptHash, ok_iff] at hr
    obtain ⟨_, -, encoded, -, rfl⟩ := hr
    exact hs _
  intro hold hm
  obtain ⟨earlier, hsub, hc⟩ := h.hold_checked hm
  refine ⟨⟨?_, ?_⟩, ?_⟩
  · intro hz
    obtain ⟨predecessor, hb, heq, -⟩ := hc.renews zero32 hz
    obtain ⟨_, _, hp⟩ := h.hold_checked (hsub hb)
    exact holdId_ne_zero hp.term heq
  · intro hz
    cases hren : hold.renews with
    | none =>
      rw [predecessorReceiptHash_of_none hc.term hren] at hz
      cases hz
    | some predecessorId =>
      obtain ⟨_, _, _, receiptHash, hr, heq⟩ := hc.renews predecessorId hren
      exact hh hr (Option.some.inj (heq.symm.trans hz))
  · intro release hrel
    obtain ⟨hv, ha, -, hid, receiptHash, hr, heq⟩ := hc.release release hrel
    refine ⟨?_, ?_⟩
    · intro hz
      have hp : release.predecessorHoldId = some release.holdId := predecessor_of_release hv ha
      exact holdId_ne_zero hv (Option.some.inj (hp.symm.trans hz))
    · intro hz
      exact hh hr (Option.some.inj (heq.symm.trans hz))

end Pigeonpost
