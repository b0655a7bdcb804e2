import Pigeonpost.Library.Reader
import Pigeonpost.Program.Disclosure.Leaf

/-! # Legal holds (`pigeonpost-compliance/src/retention.rs`)

Receipts of holds placed, renewed and released, each under two approvals. -/

namespace Pigeonpost

def dayMs : ℕ := 24 * 60 * 60 * 1000

def maxHoldTermMs : ℕ := 90 * dayMs

def holdIdDomain : Bytes := ascii "pigeonpost/legal-hold-id/v2"

def holdReceiptHashDomain : Bytes := ascii "pigeonpost/legal-hold-receipt-hash/v1"

def holdApproverKeyIdDomain : Bytes := ascii "pigeonpost/legal-hold-approver-key/v1"

def disclosureRequestDomain : Bytes := ascii "pigeonpost/disclosure-request/v1"

def disclosureApprovalDomain : Bytes := ascii "pigeonpost/disclosure-approval/v1"

def disclosureCommitmentDomain : Bytes := ascii "pigeonpost/disclosure-private-field/v1"

def legalProcessRequester : Bytes := ascii "legal-process-intake"

def holdReceiptVersion : UInt8 := 1

/-! ## Reading an inventory -/

abbrev InventoryReader (α : Type) : Type := Reader ComplianceError α

namespace InventoryReader

def take (width : ℕ) : InventoryReader Bytes := Reader.take .incompleteInventory width

def u8 : InventoryReader UInt8 := do
  let bytes ← take 1
  return bytes.getD 0 0

def u16 : InventoryReader UInt16 := do
  let bytes ← take 2
  return UInt16.ofNat (readBE bytes)

def u64 : InventoryReader UInt64 := do
  let bytes ← take 8
  return UInt64.ofNat (readBE bytes)

def array32 : InventoryReader Bytes32 := do
  let bytes ← take 32
  return bytes32 bytes

def array64 : InventoryReader (Vector UInt8 64) := do
  let bytes ← take 64
  return copyArray 64 bytes

def optional32 : InventoryReader (Option Bytes32) := do
  let present ← u8
  let value ← array32
  if present = 0 ∧ value = zero32 then return none
  else if present = 1 ∧ value ≠ zero32 then return some value
  else throw .incompleteInventory

end InventoryReader

open InventoryReader

def pushOptional32 (value : Option Bytes32) : Bytes :=
  (if value.isSome then 1 else 0) :: (value.getD zero32).toList

/-! ## Authorizations -/

inductive LegalHoldReceiptAction where
  | place
  | renew
  | release
deriving DecidableEq

def LegalHoldReceiptAction.toByte : LegalHoldReceiptAction → UInt8
  | .place => 1
  | .renew => 2
  | .release => 3

structure LegalHoldApproval where
  rosterKeyId : Bytes32
  publicKey : Bytes32
  approvedAtMs : UInt64
  signature : Vector UInt8 64

/-- An approved request, with its two approvals and the three salts of its commitments. -/
structure LegalHoldAuthorization where
  requestId : Bytes32
  createdAtMs : UInt64
  expiresAtMs : UInt64
  orderCommitment : Bytes32
  requesterCommitment : Bytes32
  selectorCommitment : Bytes32
  orderSalt : Bytes32
  requesterSalt : Bytes32
  selectorSalt : Bytes32
  firstApproval : LegalHoldApproval
  secondApproval : LegalHoldApproval

variable (prim : CryptoPrimitives)

def holdApproverKeyId (publicKey : Bytes32) : Bytes32 :=
  prim.sha256 (holdApproverKeyIdDomain ++ publicKey.toList)

def disclosureApprovalPreimage (requestId : Bytes32) (approvedAtMs : UInt64) : Bytes :=
  disclosureApprovalDomain ++ requestId.toList ++ beBytes 8 approvedAtMs.toNat ++ [1]

def disclosureCommitment (label : Bytes) (salt : Bytes32) (raw : Bytes) : Bytes32 :=
  prim.sha256 (disclosureCommitmentDomain ++ beBytes 2 label.length ++ label ++ salt.toList
    ++ beBytes 8 raw.length ++ raw)

/-- The source unwraps the encoding of the key identifier, which was validated before. -/
def disclosureRequestId (keyId : ComplianceKeyId)
    (createdAtMs expiresAtMs : UInt64)
    (orderCommitment requesterCommitment selectorCommitment : Bytes32) :
    Except ComplianceError Bytes32 := do
  let encoded ← keyId.encode.mapError fun _ => .incompleteInventory
  return prim.sha256 (disclosureRequestDomain
    ++ [keyId.jurisdiction.toByte, keyId.purpose.toByte]
    ++ beBytes 8 createdAtMs.toNat ++ beBytes 8 expiresAtMs.toNat ++ [1] ++ encoded
    ++ orderCommitment.toList ++ requesterCommitment.toList ++ selectorCommitment.toList)

/-- One round of the loop over the approvals. -/
def LegalHoldAuthorization.validateApproval
    (authorization : LegalHoldAuthorization) (approval : LegalHoldApproval) :
    Except ComplianceError Unit := do
  if approval.rosterKeyId ≠ holdApproverKeyId prim approval.publicKey
      ∨ approval.approvedAtMs < authorization.createdAtMs
      ∨ approval.approvedAtMs > authorization.expiresAtMs then
    throw .badApproval
  if !prim.verifyingKeyFromBytes approval.publicKey ∨ prim.isWeak approval.publicKey then
    throw .badApproval
  if !prim.verifyStrict approval.publicKey
      (disclosureApprovalPreimage authorization.requestId approval.approvedAtMs)
      approval.signature then
    throw .badApproval

def LegalHoldAuthorization.validate
    (authorization : LegalHoldAuthorization) (keyId : ComplianceKeyId)
    (selectorMaterial : Bytes) : Except ComplianceError Unit := do
  let requestId ← disclosureRequestId prim keyId authorization.createdAtMs
    authorization.expiresAtMs authorization.orderCommitment authorization.requesterCommitment
    authorization.selectorCommitment
  if authorization.createdAtMs = 0 ∨ authorization.expiresAtMs ≤ authorization.createdAtMs
      ∨ authorization.orderCommitment = zero32 ∨ authorization.requesterCommitment = zero32
      ∨ authorization.selectorCommitment = zero32
      ∨ authorization.firstApproval.publicKey = authorization.secondApproval.publicKey
      ∨ ¬authorization.firstApproval.rosterKeyId.toList
        < authorization.secondApproval.rosterKeyId.toList
      ∨ disclosureCommitment prim (ascii "requester") authorization.requesterSalt
        legalProcessRequester ≠ authorization.requesterCommitment
      ∨ disclosureCommitment prim (ascii "selectors") authorization.selectorSalt selectorMaterial
        ≠ authorization.selectorCommitment
      ∨ requestId ≠ authorization.requestId then
    throw .badApproval
  authorization.validateApproval prim authorization.firstApproval
  authorization.validateApproval prim authorization.secondApproval

/-! ## Receipts -/

structure LegalHoldReceipt where
  action : LegalHoldReceiptAction
  holdId : Bytes32
  keyId : ComplianceKeyId
  startsAtMs : UInt64
  expiresAtMs : UInt64
  actedAtMs : UInt64
  predecessorHoldId : Option Bytes32
  predecessorReceiptHash : Option Bytes32
  authorization : LegalHoldAuthorization

def holdSelectorMaterial (action : LegalHoldReceiptAction) (holdId : Bytes32)
    (expiresAtMs : UInt64) (predecessorHoldId : Option Bytes32) : Except ComplianceError Bytes :=
  match action with
  | .place =>
    match predecessorHoldId with
    | some _ => .error .incompleteInventory
    | none => .ok (ascii "place" ++ beBytes 8 expiresAtMs.toNat)
  | .renew =>
    match predecessorHoldId with
    | none => .error .incompleteInventory
    | some predecessor =>
      .ok (ascii "renew" ++ predecessor.toList ++ beBytes 8 expiresAtMs.toNat)
  | .release => .ok (ascii "release" ++ holdId.toList)

def canonicalHoldId (keyId : ComplianceKeyId)
    (startsAtMs expiresAtMs : UInt64) (predecessorHoldId : Option Bytes32)
    (authorization : LegalHoldAuthorization) : Except ComplianceError Bytes32 := do
  let encoded ← keyId.encode.mapError fun _ => .incompleteInventory
  let holdId := prim.sha256 (holdIdDomain ++ encoded ++ beBytes 8 startsAtMs.toNat
    ++ beBytes 8 expiresAtMs.toNat ++ [if predecessorHoldId.isSome then 1 else 0]
    ++ (predecessorHoldId.getD zero32).toList ++ authorization.requestId.toList
    ++ authorization.orderCommitment.toList)
  if holdId = zero32 then throw .incompleteInventory
  return holdId

namespace LegalHoldApproval

def encode (approval : LegalHoldApproval) : Bytes :=
  approval.rosterKeyId.toList ++ approval.publicKey.toList
    ++ beBytes 8 approval.approvedAtMs.toNat ++ approval.signature.toList

def decode : InventoryReader LegalHoldApproval := do
  let rosterKeyId ← array32
  let publicKey ← array32
  let approvedAtMs ← u64
  let signature ← array64
  return { rosterKeyId, publicKey, approvedAtMs, signature }

end LegalHoldApproval

namespace LegalHoldReceipt

def validate (prim : CryptoPrimitives) (receipt : LegalHoldReceipt) :
    Except ComplianceError Unit := do
  if receipt.keyId.validate ≠ .ok () ∨ receipt.holdId = zero32
      ∨ receipt.actedAtMs ≠ receipt.authorization.createdAtMs
      ∨ receipt.startsAtMs = 0 ∨ receipt.expiresAtMs ≤ receipt.startsAtMs
      ∨ (receipt.expiresAtMs - receipt.startsAtMs).toNat > maxHoldTermMs then
    throw .incompleteInventory
  let selector ← holdSelectorMaterial receipt.action receipt.holdId receipt.expiresAtMs
    receipt.predecessorHoldId
  receipt.authorization.validate prim receipt.keyId selector
  match receipt.action with
  | .place =>
    let holdId ← canonicalHoldId prim receipt.keyId receipt.startsAtMs receipt.expiresAtMs none
      receipt.authorization
    if receipt.predecessorHoldId.isSome ∨ receipt.predecessorReceiptHash.isSome
        ∨ receipt.startsAtMs ≠ receipt.actedAtMs ∨ receipt.holdId ≠ holdId then
      throw .incompleteInventory
  | .renew =>
    match receipt.predecessorHoldId with
    | none => throw .incompleteInventory
    | some predecessor =>
      let holdId ← canonicalHoldId prim receipt.keyId receipt.startsAtMs receipt.expiresAtMs
        (some predecessor) receipt.authorization
      if receipt.predecessorReceiptHash.isNone ∨ receipt.startsAtMs ≠ receipt.actedAtMs
          ∨ predecessor = receipt.holdId ∨ receipt.holdId ≠ holdId then
        throw .incompleteInventory
  | .release =>
    if receipt.predecessorHoldId ≠ some receipt.holdId
        ∨ receipt.predecessorReceiptHash.isNone then
      throw .incompleteInventory

def encode (receipt : LegalHoldReceipt) : Except ComplianceError Bytes := do
  let keyId ← receipt.keyId.encode.mapError fun _ => .incompleteInventory
  return [holdReceiptVersion, receipt.action.toByte] ++ receipt.holdId.toList ++ keyId
    ++ beBytes 8 receipt.startsAtMs.toNat ++ beBytes 8 receipt.expiresAtMs.toNat
    ++ beBytes 8 receipt.actedAtMs.toNat
    ++ pushOptional32 receipt.predecessorHoldId ++ pushOptional32 receipt.predecessorReceiptHash
    ++ receipt.authorization.requestId.toList
    ++ beBytes 8 receipt.authorization.createdAtMs.toNat
    ++ beBytes 8 receipt.authorization.expiresAtMs.toNat
    ++ receipt.authorization.orderCommitment.toList
    ++ receipt.authorization.requesterCommitment.toList
    ++ receipt.authorization.selectorCommitment.toList
    ++ receipt.authorization.orderSalt.toList ++ receipt.authorization.requesterSalt.toList
    ++ receipt.authorization.selectorSalt.toList
    ++ receipt.authorization.firstApproval.encode ++ receipt.authorization.secondApproval.encode

def receiptHash (receipt : LegalHoldReceipt) :
    Except ComplianceError Bytes32 := do
  receipt.validate prim
  let encoded ← receipt.encode
  return prim.sha256 (holdReceiptHashDomain ++ encoded)

def actionOfByte (value : UInt8) : Except ComplianceError LegalHoldReceiptAction :=
  if value = 1 then .ok .place
  else if value = 2 then .ok .renew
  else if value = 3 then .ok .release
  else .error .incompleteInventory

def decode (prim : CryptoPrimitives) : InventoryReader LegalHoldReceipt := do
  let version ← u8
  if version ≠ holdReceiptVersion then throw .incompleteInventory
  let action ← u8
  let action ← Reader.check (actionOfByte action)
  let holdId ← array32
  let keyId ← take complianceKeyIdLen
  let keyId ← Reader.check ((ComplianceKeyId.decode keyId).mapError fun _ => .incompleteInventory)
  let startsAtMs ← u64
  let expiresAtMs ← u64
  let actedAtMs ← u64
  let predecessorHoldId ← optional32
  let predecessorReceiptHash ← optional32
  let requestId ← array32
  let createdAtMs ← u64
  let requestExpiresAtMs ← u64
  let orderCommitment ← array32
  let requesterCommitment ← array32
  let selectorCommitment ← array32
  let orderSalt ← array32
  let requesterSalt ← array32
  let selectorSalt ← array32
  let firstApproval ← LegalHoldApproval.decode
  let secondApproval ← LegalHoldApproval.decode
  let receipt : LegalHoldReceipt := {
    action, holdId, keyId, startsAtMs, expiresAtMs, actedAtMs
    predecessorHoldId, predecessorReceiptHash
    authorization := {
      requestId, createdAtMs
      expiresAtMs := requestExpiresAtMs
      orderCommitment, requesterCommitment, selectorCommitment
      orderSalt, requesterSalt, selectorSalt
      firstApproval, secondApproval } }
  Reader.check (receipt.validate prim)
  return receipt

end LegalHoldReceipt

/-! ## Holds -/

structure LegalHold where
  termReceipt : LegalHoldReceipt
  releaseReceipt : Option LegalHoldReceipt

namespace LegalHold

def holdId (hold : LegalHold) : Bytes32 := hold.termReceipt.holdId

def startsAtMs (hold : LegalHold) : UInt64 := hold.termReceipt.startsAtMs

def expiresAtMs (hold : LegalHold) : UInt64 := hold.termReceipt.expiresAtMs

def releasedAtMs (hold : LegalHold) : Option UInt64 :=
  hold.releaseReceipt.map LegalHoldReceipt.actedAtMs

/-- The hold term that this one renews. -/
def renews (hold : LegalHold) : Option Bytes32 := hold.termReceipt.predecessorHoldId

def activeAt (hold : LegalHold) (atMs : UInt64) : Bool :=
  decide (hold.startsAtMs ≤ atMs) && decide (atMs ≤ hold.expiresAtMs)
    && hold.releasedAtMs.all fun released => decide (atMs < released)

end LegalHold

end Pigeonpost
