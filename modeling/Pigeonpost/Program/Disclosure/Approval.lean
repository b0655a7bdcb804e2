import Pigeonpost.Program.Retention.Inventory

/-! # Two-person approval (`pigeonpost-compliance/src/approval.rs`) -/

namespace Pigeonpost

inductive DisclosureState where
  | pending
  | authorized
  | consumed
  | denied
  | expired
deriving DecidableEq

/-- What a request commits to and does not keep. -/
structure SensitiveRequestMaterial where
  orderReference : Bytes
  requesterIdentity : Bytes
  selectors : Bytes

structure CommitmentOpenings where
  orderSalt : Bytes32
  requesterSalt : Bytes32
  selectorSalt : Bytes32

structure DisclosureRequest where
  requestId : Bytes32
  jurisdiction : Jurisdiction
  purpose : CompliancePurpose
  keyIds : List ComplianceKeyId
  createdAtMs : UInt64
  expiresAtMs : UInt64
  orderCommitment : Bytes32
  requesterCommitment : Bytes32
  selectorCommitment : Bytes32
  approverKeys : List Bytes32
  approvers : List Bytes32
  approverSalts : List Bytes32
  state : DisclosureState

/-- What an operation is handed once its intent is public. -/
structure AuthorizedDisclosure where
  requestId : Bytes32
  jurisdiction : Jurisdiction
  purpose : CompliancePurpose
  keyIds : List ComplianceKeyId

/-- A call that draws salts until one fits. Without a value it is still drawing. -/
abbrev Drawing (α : Type) : Type := ExceptT ComplianceError Option α

variable (prim : CryptoPrimitives)

def randomCommitment (label raw : Bytes) (draws : List Bytes32) : Option (Bytes32 × Bytes32) :=
  (draws.map fun salt => (salt, disclosureCommitment prim label salt raw)).find?
    fun drawn => drawn.2 ≠ zero32

def keyIdsOrder (left right : ComplianceKeyId) : Bool := !keyIdPrecedes right left

/-- The encodings of key identifiers that were validated before. -/
def requestIdOf (jurisdiction : Jurisdiction)
    (purpose : CompliancePurpose) (keyIds : List ComplianceKeyId) (createdAtMs expiresAtMs : UInt64)
    (orderCommitment requesterCommitment selectorCommitment : Bytes32) :
    Except ComplianceError Bytes32 := do
  let encoded ← DisclosureIntent.encodeKeyIds keyIds
  return prim.sha256 (disclosureRequestDomain ++ [jurisdiction.toByte, purpose.toByte]
    ++ beBytes 8 createdAtMs.toNat ++ beBytes 8 expiresAtMs.toNat
    ++ [UInt8.ofNat keyIds.length] ++ encoded
    ++ orderCommitment.toList ++ requesterCommitment.toList ++ selectorCommitment.toList)

namespace DisclosureRequest

def new (jurisdiction : Jurisdiction) (purpose : CompliancePurpose)
    (keyIds : List ComplianceKeyId) (createdAtMs expiresAtMs : UInt64)
    (sensitive : SensitiveRequestMaterial)
    (orderDraws requesterDraws selectorDraws : List Bytes32) :
    Drawing (DisclosureRequest × CommitmentOpenings) := do
  if createdAtMs = 0 ∨ expiresAtMs ≤ createdAtMs ∨ keyIds = []
      ∨ keyIds.length > maxDisclosureKeys ∨ sensitive.orderReference = []
      ∨ sensitive.requesterIdentity = [] ∨ sensitive.selectors = [] then
    throw .invalidRequest
  if keyIds.any fun keyId => !keyId.validate.isOk || keyId.purpose != purpose
      || keyId.jurisdiction != jurisdiction then
    throw .wrongPurpose
  let keyIds := keyIds.mergeSort keyIdsOrder
  if anyAdjacent (· == ·) keyIds then throw .invalidRequest
  let order ← randomCommitment prim (ascii "order") sensitive.orderReference orderDraws
  let requester ← randomCommitment prim (ascii "requester") sensitive.requesterIdentity
    requesterDraws
  let selector ← randomCommitment prim (ascii "selectors") sensitive.selectors selectorDraws
  let requestId ← ExceptT.mk (some (requestIdOf prim jurisdiction purpose keyIds createdAtMs
    expiresAtMs order.2 requester.2 selector.2))
  return ({
    requestId, jurisdiction, purpose, keyIds, createdAtMs, expiresAtMs
    orderCommitment := order.2
    requesterCommitment := requester.2
    selectorCommitment := selector.2
    approverKeys := []
    approvers := []
    approverSalts := []
    state := .pending }, ⟨order.1, requester.1, selector.1⟩)

variable (request : DisclosureRequest)

def approvalPreimage (approvedAtMs : UInt64) : Bytes :=
  disclosureApprovalPreimage request.requestId approvedAtMs

def expireIfNeeded (nowMs : UInt64) : DisclosureRequest :=
  if nowMs > request.expiresAtMs ∧ (request.state = .pending ∨ request.state = .authorized) then
    { request with state := .expired }
  else request

/-- The request with one more approval. Two of them authorize it. -/
def addApprover (publicKey commitment salt : Bytes32) : DisclosureRequest :=
  { request with
    approverKeys := request.approverKeys ++ [publicKey]
    approvers := request.approvers ++ [commitment]
    approverSalts := request.approverSalts ++ [salt]
    state := if request.approvers.length + 1 = 2 then .authorized else request.state }

/-- The answer and the request as the call leaves it; nothing while it draws salts. -/
def approve (request : DisclosureRequest) (publicKey : Bytes32)
    (approvedAtMs : UInt64) (signature : Vector UInt8 64) (draws : List Bytes32) :
    Option (Except ComplianceError Unit × DisclosureRequest) :=
  let request := request.expireIfNeeded approvedAtMs
  if request.state ≠ .pending ∨ approvedAtMs < request.createdAtMs then
    some (.error (if request.state = .expired then .expired else .stateConflict), request)
  else if !prim.verifyingKeyFromBytes publicKey ∨ prim.isWeak publicKey then
    some (.error .badApproval, request)
  else if !prim.verifyStrict publicKey (request.approvalPreimage approvedAtMs) signature then
    some (.error .badApproval, request)
  else if publicKey ∈ request.approverKeys then some (.error .badApproval, request)
  else
    let commitment := fun salt =>
      disclosureCommitment prim (ascii "approver") salt publicKey.toList
    (draws.find? fun salt => commitment salt ≠ zero32 ∧ commitment salt ∉ request.approvers).map
      fun salt => (.ok (), request.addApprover publicKey (commitment salt) salt)

def deny (atMs : UInt64) : Except ComplianceError Unit × DisclosureRequest :=
  let request := request.expireIfNeeded atMs
  if request.state ≠ .pending then (.error .stateConflict, request)
  else (.ok (), { request with state := .denied })

def ensureAuthorized (atMs : UInt64) : Except ComplianceError Unit × DisclosureRequest :=
  let request := request.expireIfNeeded atMs
  if request.state = .authorized then (.ok (), request)
  else (.error (if request.state = .expired then .expired else .unauthorized), request)

def consume (atMs : UInt64) : Except ComplianceError AuthorizedDisclosure × DisclosureRequest :=
  let request := request.expireIfNeeded atMs
  if request.state ≠ .authorized then
    (.error (if request.state = .expired then .expired else .unauthorized), request)
  else
    (.ok ⟨request.requestId, request.jurisdiction, request.purpose, request.keyIds⟩,
      { request with state := .consumed })

/-- The leaf that announces an execution. -/
def intent (startedAtMs : UInt64) : DisclosureIntent where
  requestId := request.requestId
  timestampMs := startedAtMs
  jurisdiction := request.jurisdiction
  purpose := request.purpose
  keyIds := request.keyIds
  orderCommitment := request.orderCommitment
  requesterCommitment := request.requesterCommitment
  selectorCommitment := request.selectorCommitment
  approverCommitments := request.approvers

end DisclosureRequest

end Pigeonpost
