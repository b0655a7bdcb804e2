import Pigeonpost.Library.Outcome
import Pigeonpost.Program.Retention.Inventory

/-! # Valid inventories

What `validate` demands, field by field, and which changes of the copies it does not
notice. -/

namespace Pigeonpost

open List

variable {keyId : ComplianceKeyId} {prim : CryptoPrimitives}
  {before : List LegalHold} {childPredecessors requestIds : List Bytes32}

/-- The demands of `validate`. -/
structure InventoryValid (prim : CryptoPrimitives) (inventory : DestructionInventory) : Prop where
  retention : inventory.retentionPolicy.retentionUntil inventory.keyId
    = .ok inventory.retentionUntilMs
  keyId : inventory.keyId.validate = .ok ()
  epoch : (complianceEpochEndMs inventory.keyId).isOk = true
  created : inventory.createdAtMs = inventory.keyId.epochStartMs
  nonempty : inventory.copies.isEmpty = false
  copies_le : inventory.copies.length ≤ maxInventoryCopies
  holds_le : inventory.holds.length ≤ maxInventoryHolds
  integrity : inventory.traceIntegrity.any (·.terminalManifestCommitment == zero32) = false
  kinds : (requiredCopyKinds.any fun kind =>
    !inventory.copies.any fun copy => copy.kind == kind) = false
  ids_ne_zero : zero32 ∉ (inventory.copies.map KeyCopy.copyId).insertionSort
    fun a b => a.toList ≤ b.toList
  ids_distinct : anyAdjacent (· == ·) ((inventory.copies.map KeyCopy.copyId).insertionSort
    fun a b => a.toList ≤ b.toList) = false
  sorted : anyAdjacent (fun left right => !left.precedes right) inventory.copies = false
  copies : inventory.copies.all inventory.state.allowsCopy = true
  holds : validateHolds prim inventory.keyId [] [] [] inventory.holds = .ok ()

variable {policy : RetentionPolicy} {deadline : UInt64}

theorem RetentionPolicy.validate_of_retentionUntil
    (h : policy.retentionUntil keyId = .ok deadline) : policy.validate = .ok () := by
  simp only [retentionUntil, ok_iff] at h
  obtain ⟨_, hp, -⟩ := h
  exact hp

theorem RetentionPolicy.retentionUntil_eq_ok (h : policy.retentionUntil keyId = .ok deadline) :
    ∃ epochEnd, complianceEpochEndMs keyId = .ok epochEnd ∧
      deadline.toNat = epochEnd + (policy.days keyId.jurisdiction).toNat * dayMs := by
  simp only [retentionUntil, ok_iff, not_le, ge_iff_le] at h
  obtain ⟨_, -, epochEnd, he, hlt, rfl⟩ := h
  refine ⟨epochEnd, he, ?_⟩
  rw [UInt64.toNat_ofNat']
  exact Nat.mod_eq_of_lt hlt

variable {inventory : DestructionInventory}

theorem validate_eq_ok : inventory.validate prim = .ok () ↔ InventoryValid prim inventory := by
  simp only [DestructionInventory.validate, ok_iff, not_or, not_not, Bool.not_eq_true,
    Bool.not_eq_false, Bool.not_eq_true', not_lt, gt_iff_lt]
  constructor
  · rintro ⟨_, -, deadline, hd, ⟨h₁, h₂, h₃, h₄, h₅, h₆, h₇, h₈, h₉⟩, ⟨h₁₀, h₁₁, h₁₂⟩, h₁₃, h₁₄⟩
    exact ⟨h₄ ▸ hd, h₁, h₂, h₃, h₅, h₆, h₇, h₈, h₉, h₁₀, h₁₁, h₁₂, h₁₃, h₁₄⟩
  · intro h
    exact ⟨(), RetentionPolicy.validate_of_retentionUntil h.retention, _, h.retention,
      ⟨h.keyId, h.epoch, h.created, rfl, h.nonempty, h.copies_le, h.holds_le, h.integrity, h.kinds⟩,
      ⟨h.ids_ne_zero, h.ids_distinct, h.sorted⟩, h.copies, h.holds⟩

/-! ## Receipts -/

namespace LegalHoldReceipt

variable {prim : CryptoPrimitives} {receipt : LegalHoldReceipt}

section

variable (h : receipt.validate prim = .ok ())

include h

theorem holdId_ne_zero : receipt.holdId ≠ zero32 := by
  simp only [validate, ok_iff, not_or] at h
  exact h.1.2.1

theorem predecessorReceiptHash_of_none
    (hn : receipt.predecessorHoldId = none) : receipt.predecessorReceiptHash = none := by
  simp only [validate, ok_iff] at h
  obtain ⟨-, selector, -, _, -, h⟩ := h
  cases ha : receipt.action with
  | place =>
    simp only [ha, ok_iff, not_or] at h
    obtain ⟨_, -, ⟨-, hh, -⟩, -⟩ := h
    simpa using hh
  | renew =>
    simp only [ha, hn] at h
    exact absurd h throw_ne_ok
  | release =>
    simp only [ha, hn, ok_iff] at h
    exact absurd (.inl (by simp)) h.1

theorem predecessor_of_release
    (ha : receipt.action = .release) : receipt.predecessorHoldId = some receipt.holdId := by
  simp only [validate, ok_iff, ha, not_or, not_not] at h
  obtain ⟨-, _, -, _, -, ⟨hp, -⟩, -⟩ := h
  exact hp

end

/-- Two keys signed for the request. -/
structure TwoApprovers (prim : CryptoPrimitives) (receipt : LegalHoldReceipt) : Prop where
  distinct : receipt.authorization.firstApproval.publicKey
    ≠ receipt.authorization.secondApproval.publicKey
  first : prim.verifyStrict receipt.authorization.firstApproval.publicKey
    (disclosureApprovalPreimage receipt.authorization.requestId
      receipt.authorization.firstApproval.approvedAtMs)
    receipt.authorization.firstApproval.signature = true
  second : prim.verifyStrict receipt.authorization.secondApproval.publicKey
    (disclosureApprovalPreimage receipt.authorization.requestId
      receipt.authorization.secondApproval.approvedAtMs)
    receipt.authorization.secondApproval.signature = true

theorem verifyStrict_of_validateApproval {authorization : LegalHoldAuthorization}
    {approval : LegalHoldApproval} (h : authorization.validateApproval prim approval = .ok ()) :
    prim.verifyStrict approval.publicKey
      (disclosureApprovalPreimage authorization.requestId approval.approvedAtMs)
      approval.signature = true := by
  simp only [LegalHoldAuthorization.validateApproval, ok_iff] at h
  simpa using h.2.2.1

theorem twoApprovers (h : receipt.validate prim = .ok ()) : receipt.TwoApprovers prim := by
  simp only [validate, ok_iff] at h
  obtain ⟨-, selector, -, _, ha, -⟩ := h
  simp only [LegalHoldAuthorization.validate, ok_iff, not_or] at ha
  obtain ⟨requestId, -, ⟨-, -, -, -, -, hd, -⟩, _, hf, hs⟩ := ha
  exact ⟨hd, verifyStrict_of_validateApproval hf, verifyStrict_of_validateApproval hs⟩

end LegalHoldReceipt

/-! ## Holds -/

/-- What the loop over the holds found out about one of them. -/
structure HoldChecked (prim : CryptoPrimitives) (keyId : ComplianceKeyId)
    (before : List LegalHold) (hold : LegalHold) : Prop where
  term : hold.termReceipt.validate prim = .ok ()
  renews : ∀ predecessorId, hold.renews = some predecessorId →
    ∃ predecessor ∈ before, predecessor.holdId = predecessorId ∧
      ∃ receiptHash, predecessor.termReceipt.receiptHash prim = .ok receiptHash ∧
        hold.termReceipt.predecessorReceiptHash = some receiptHash
  release : ∀ release, hold.releaseReceipt = some release →
    release.validate prim = .ok () ∧ release.action = .release ∧ release.keyId = keyId ∧
      release.holdId = hold.holdId ∧
      ∃ receiptHash, hold.termReceipt.receiptHash prim = .ok receiptHash ∧
        release.predecessorReceiptHash = some receiptHash

theorem validateHolds_cons {rest : List LegalHold} {hold : LegalHold}
    (h : validateHolds prim keyId before childPredecessors requestIds (hold :: rest) = .ok ()) :
    HoldChecked prim keyId before hold ∧ ∃ childPredecessors' requestIds',
      validateHolds prim keyId (before ++ [hold]) childPredecessors' requestIds' rest = .ok () := by
  simp only [validateHolds, ok_iff] at h
  obtain ⟨_, ht, -, children, hc, ids, hids, hrest⟩ := h
  refine ⟨⟨ht, ?_, ?_⟩, children, ids, hrest⟩
  · intro predecessorId hren
    simp only [validateRenewal, hren] at hc
    split at hc
    · cases hc
    · rename_i predecessor hf
      simp only [ok_iff, not_or, not_not] at hc
      obtain ⟨receiptHash, hh, ⟨-, -, heq⟩, -⟩ := hc
      exact ⟨predecessor, mem_of_find?_eq_some hf, by simpa using find?_some hf,
        receiptHash, hh, heq⟩
  · intro release hr
    simp only [validateRelease, hr, ok_iff, not_or, not_not] at hids
    obtain ⟨_, hv, receiptHash, hh, ⟨ha, hk, hid, -, -, -, -, heq, -⟩, -⟩ := hids
    exact ⟨hv, ha, hk, hid, receiptHash, hh, heq⟩

theorem validateHolds_checked {holds : List LegalHold}
    (h : validateHolds prim keyId before childPredecessors requestIds holds = .ok ())
    (hb : ∀ hold ∈ before, ∃ earlier ⊆ before, HoldChecked prim keyId earlier hold) :
    ∀ hold ∈ before ++ holds, ∃ earlier ⊆ before ++ holds, HoldChecked prim keyId earlier hold := by
  induction holds generalizing before childPredecessors requestIds with
  | nil => simpa using hb
  | cons _ _ ih =>
    obtain ⟨hc, childPredecessors', requestIds', hr⟩ := validateHolds_cons h
    have ha := ih hr ?_
    · simpa using ha
    · intro x hx
      rcases mem_append.mp hx with hx | hx
      · obtain ⟨earlier, hs, hx⟩ := hb x hx
        exact ⟨earlier, List.Subset.trans hs (subset_append_left _ _), hx⟩
      · obtain rfl := mem_singleton.mp hx
        exact ⟨before, subset_append_left _ _, hc⟩

theorem InventoryValid.hold_checked (h : InventoryValid prim inventory) {hold : LegalHold}
    (hm : hold ∈ inventory.holds) :
    ∃ earlier ⊆ inventory.holds, HoldChecked prim inventory.keyId earlier hold := by
  have ha := validateHolds_checked h.holds (by simp)
  simpa using ha hold (by simpa using hm)

/-! ## Copies that keep their places -/

/-- The same locations, in other states of destruction. -/
def SameLocations : List KeyCopy → List KeyCopy → Prop :=
  List.Forall₂ fun copy copy' => copy'.copyId = copy.copyId ∧ copy'.kind = copy.kind

namespace SameLocations

variable {copies copies' : List KeyCopy}

section

variable (h : SameLocations copies copies')

include h

theorem ids : copies'.map KeyCopy.copyId = copies.map KeyCopy.copyId := by
  induction h with
  | nil => rfl
  | cons hc _ ih => rw [map_cons, map_cons, hc.1, ih]

theorem any_kind (kind : KeyCopyKind) :
    (copies'.any fun copy => copy.kind == kind) = copies.any fun copy => copy.kind == kind := by
  induction h with
  | nil => rfl
  | cons hc _ ih => rw [any_cons, any_cons, hc.2, ih]

theorem anyAdjacent_precedes : anyAdjacent (fun left right => !left.precedes right) copies'
      = anyAdjacent (fun left right => !left.precedes right) copies := by
  induction h with
  | nil => rfl
  | cons hc hr ih =>
    cases hr with
    | nil => rfl
    | cons hn =>
      rw [anyAdjacent, anyAdjacent, ih]
      simp only [KeyCopy.precedes, hc.1, hc.2, hn.1, hn.2]

theorem isEmpty : copies'.isEmpty = copies.isEmpty := by
  cases h with
  | nil => rfl
  | cons => rfl

/-- Every location is still there. -/
theorem exists_mem {copy : KeyCopy} (hm : copy ∈ copies) :
    ∃ copy' ∈ copies', copy'.copyId = copy.copyId ∧ copy'.kind = copy.kind := by
  induction h with
  | nil => cases hm
  | cons hc _ ih =>
    rcases mem_cons.mp hm with rfl | hm
    · exact ⟨_, mem_cons_self, hc⟩
    · obtain ⟨copy', hm', hs⟩ := ih hm
      exact ⟨copy', mem_cons_of_mem _ hm', hs⟩

end

theorem refl (copies : List KeyCopy) : SameLocations copies copies := by
  induction copies with
  | nil => exact .nil
  | cons _ _ ih => exact .cons ⟨rfl, rfl⟩ ih

theorem set {copy copy' : KeyCopy} {index : ℕ} (hg : copies[index]? = some copy)
    (hs : copy'.copyId = copy.copyId ∧ copy'.kind = copy.kind) :
    SameLocations copies (copies.set index copy') := by
  induction copies generalizing index with
  | nil => simp at hg
  | cons _ rest ih =>
    cases index with
    | zero =>
      simp only [getElem?_cons_zero, Option.some.injEq] at hg
      exact .cons (hg ▸ hs) (refl rest)
    | succ =>
      exact .cons ⟨rfl, rfl⟩ (ih hg)

theorem requestDestruction (copies : List KeyCopy) :
    SameLocations copies (copies.map KeyCopy.requestDestruction) := by
  induction copies with
  | nil => exact .nil
  | cons _ _ ih =>
    refine .cons ?_ ih
    unfold KeyCopy.requestDestruction
    split
    · exact ⟨rfl, rfl⟩
    · exact ⟨rfl, rfl⟩

end SameLocations

/-- A change that keeps every location and leaves each copy in a state that the inventory
allows keeps the inventory valid. -/
theorem InventoryValid.of_sameLocations (h : InventoryValid prim inventory)
    {copies : List KeyCopy} {state : InventoryState}
    (hs : SameLocations inventory.copies copies) (ha : copies.all state.allowsCopy = true) :
    InventoryValid prim { inventory with state, copies } where
  retention := h.retention
  keyId := h.keyId
  epoch := h.epoch
  created := h.created
  nonempty := by rw [hs.isEmpty, h.nonempty]
  copies_le := by rw [← hs.length_eq]; exact h.copies_le
  holds_le := h.holds_le
  integrity := h.integrity
  kinds := by simpa only [hs.any_kind] using h.kinds
  ids_ne_zero := by rw [hs.ids]; exact h.ids_ne_zero
  ids_distinct := by rw [hs.ids]; exact h.ids_distinct
  sorted := by rw [hs.anyAdjacent_precedes, h.sorted]
  copies := ha
  holds := h.holds

end Pigeonpost
