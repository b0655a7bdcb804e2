import Pigeonpost.Library.Method
import Pigeonpost.Program.Retention.Hold
import Mathlib.Data.List.Sort

/-! # Destruction inventories (`pigeonpost-compliance/src/retention.rs`)

Retention, legal holds and the destruction of every copy of one epoch key. -/

namespace Pigeonpost

open InventoryReader

def inventoryMagic : Bytes := ascii "PPINV" ++ [0, 0, 0]

def inventoryVersion : UInt8 := 3

def legacyInventoryVersion : UInt8 := 2

def retentionPolicyVersion : UInt8 := 1

def usRetentionDays : UInt16 := 30

def euRetentionDays : UInt16 := 0

def testRetentionDays : UInt16 := 1

def trRetentionDaysMin : UInt16 := 365

def trRetentionDaysMax : UInt16 := 730

def maxInventoryCopies : ℕ := 64

def maxInventoryHolds : ℕ := 64

/-! ## Policies -/

/-- Counsel-approved retention decision. -/
structure RetentionPolicy where
  version : UInt8
  usDays : UInt16
  euDays : UInt16
  trDays : UInt16
  testDays : UInt16
  counselApprovalCommitment : Bytes32
deriving DecidableEq

namespace RetentionPolicy

variable (policy : RetentionPolicy)

def validate : Except ComplianceError Unit := do
  if policy.version ≠ retentionPolicyVersion ∨ policy.usDays ≠ usRetentionDays
      ∨ policy.euDays ≠ euRetentionDays
      ∨ ¬(trRetentionDaysMin ≤ policy.trDays ∧ policy.trDays ≤ trRetentionDaysMax)
      ∨ policy.testDays ≠ testRetentionDays
      ∨ policy.counselApprovalCommitment = zero32 then
    throw .incompleteInventory

def days : Jurisdiction → UInt16
  | .us => policy.usDays
  | .eu => policy.euDays
  | .tr => policy.trDays
  | .test => policy.testDays

/-- The expiry, from the exclusive end of the key's epoch. -/
def retentionUntil (keyId : ComplianceKeyId) :
    Except ComplianceError UInt64 := do
  policy.validate
  let epochEndMs ← (complianceEpochEndMs keyId).mapError fun _ => .incompleteInventory
  let deadline := epochEndMs + (policy.days keyId.jurisdiction).toNat * dayMs
  if deadline ≥ u64Limit then throw .invalidRequest
  return UInt64.ofNat deadline

end RetentionPolicy

/-! ## Copies -/

inductive KeyCopyKind where
  | liveMetadata
  | sqliteWal
  | sidecar
  | snapshot
  | backup
  | kmsVersion
  | shamirShare
deriving DecidableEq

def KeyCopyKind.toByte : KeyCopyKind → UInt8
  | .liveMetadata => 1
  | .sqliteWal => 2
  | .sidecar => 3
  | .snapshot => 4
  | .backup => 5
  | .kmsVersion => 6
  | .shamirShare => 7

def copyKindFromByte (value : UInt8) : Except ComplianceError KeyCopyKind :=
  if value = 1 then .ok .liveMetadata
  else if value = 2 then .ok .sqliteWal
  else if value = 3 then .ok .sidecar
  else if value = 4 then .ok .snapshot
  else if value = 5 then .ok .backup
  else if value = 6 then .ok .kmsVersion
  else if value = 7 then .ok .shamirShare
  else .error .incompleteInventory

def requiredCopyKinds : List KeyCopyKind :=
  [.liveMetadata, .sqliteWal, .sidecar, .snapshot, .backup, .kmsVersion, .shamirShare]

inductive CopyState where
  | present
  | destructionRequested
  | destroyed
  | verifiedAbsent
deriving DecidableEq

def CopyState.toByte : CopyState → UInt8
  | .present => 1
  | .destructionRequested => 2
  | .destroyed => 3
  | .verifiedAbsent => 4

def copyStateFromByte (value : UInt8) : Except ComplianceError CopyState :=
  if value = 1 then .ok .present
  else if value = 2 then .ok .destructionRequested
  else if value = 3 then .ok .destroyed
  else if value = 4 then .ok .verifiedAbsent
  else .error .incompleteInventory

/-- One committed storage location. -/
structure KeyCopy where
  copyId : Bytes32
  kind : KeyCopyKind
  state : CopyState
  destructionEvidence : Option Bytes32
deriving DecidableEq

/-- The order of the pairs of kind and identifier. -/
def KeyCopy.precedes (left right : KeyCopy) : Bool :=
  decide (left.kind.toByte < right.kind.toByte)
    || (left.kind == right.kind && decide (left.copyId.toList < right.copyId.toList))

def canonicalizeCopies (copies : List KeyCopy) : List KeyCopy :=
  copies.insertionSort fun left right => !right.precedes left

namespace KeyCopy

def requestDestruction (copy : KeyCopy) : KeyCopy :=
  if copy.state = .present then { copy with state := .destructionRequested } else copy

def encode (copy : KeyCopy) : Bytes :=
  copy.copyId.toList ++ [copy.kind.toByte, copy.state.toByte]
    ++ pushOptional32 copy.destructionEvidence

def decode : InventoryReader KeyCopy := do
  let copyId ← array32
  let kind ← u8
  let kind ← Reader.check (copyKindFromByte kind)
  let state ← u8
  let state ← Reader.check (copyStateFromByte state)
  let destructionEvidence ← optional32
  return { copyId, kind, state, destructionEvidence }

end KeyCopy

/-! ## Trace integrity -/

inductive TraceIntegrityStatus where
  | verified
  | degraded
deriving DecidableEq

structure TraceIntegrityEvidence where
  status : TraceIntegrityStatus
  terminalManifestCommitment : Bytes32

def TraceIntegrityEvidence.new (status : TraceIntegrityStatus)
    (terminalManifestCommitment : Bytes32) : Except ComplianceError TraceIntegrityEvidence := do
  if terminalManifestCommitment = zero32 then throw .incompleteInventory
  return { status, terminalManifestCommitment }

/-! ## Inventories -/

inductive InventoryState where
  | retained
  | shredding
  | shredded
deriving DecidableEq

def InventoryState.toByte : InventoryState → UInt8
  | .retained => 1
  | .shredding => 2
  | .shredded => 3

def inventoryStateFromByte (value : UInt8) : Except ComplianceError InventoryState :=
  if value = 1 then .ok .retained
  else if value = 2 then .ok .shredding
  else if value = 3 then .ok .shredded
  else .error .incompleteInventory

/-- All known copies of one epoch key, its retention and its holds. -/
structure DestructionInventory where
  keyId : ComplianceKeyId
  retentionPolicy : RetentionPolicy
  createdAtMs : UInt64
  retentionUntilMs : UInt64
  state : InventoryState
  traceIntegrity : Option TraceIntegrityEvidence
  copies : List KeyCopy
  holds : List LegalHold

def anyAdjacent {α : Type} (related : α → α → Bool) : List α → Bool
  | left :: right :: rest => related left right || anyAdjacent related (right :: rest)
  | _ => false

def InventoryState.allowsCopy (state : InventoryState) (copy : KeyCopy) : Bool :=
  (match copy.state with
    | .present | .destructionRequested => copy.destructionEvidence.isNone
    | .destroyed | .verifiedAbsent => copy.destructionEvidence.any (· != zero32))
  && (match state with
    | .retained => copy.state == .present || copy.state == .verifiedAbsent
    | .shredding => copy.state != .present
    | .shredded => copy.state == .destroyed || copy.state == .verifiedAbsent)

variable (prim : CryptoPrimitives)

def validateRenewal (before : List LegalHold)
    (childPredecessors : List Bytes32) (hold : LegalHold) : Except ComplianceError (List Bytes32) :=
  match hold.renews with
  | none => .ok childPredecessors
  | some predecessorId =>
    match before.find? fun candidate => candidate.holdId = predecessorId with
    | none => .error .incompleteInventory
    | some predecessor => do
      let receiptHash ← predecessor.termReceipt.receiptHash prim
      if predecessorId ∈ childPredecessors ∨ !predecessor.activeAt hold.startsAtMs
          ∨ hold.termReceipt.predecessorReceiptHash ≠ some receiptHash then
        throw .incompleteInventory
      return predecessorId :: childPredecessors

/-- The checks of a release: the request identifiers used so far with this one's. -/
def validateRelease (keyId : ComplianceKeyId) (hold : LegalHold)
    (requestIds : List Bytes32) : Except ComplianceError (List Bytes32) :=
  match hold.releaseReceipt with
  | none => .ok requestIds
  | some release => do
    release.validate prim
    let receiptHash ← hold.termReceipt.receiptHash prim
    if release.action ≠ .release ∨ release.keyId ≠ keyId ∨ release.holdId ≠ hold.holdId
        ∨ release.startsAtMs ≠ hold.startsAtMs ∨ release.expiresAtMs ≠ hold.expiresAtMs
        ∨ release.actedAtMs < hold.startsAtMs ∨ release.actedAtMs > hold.expiresAtMs
        ∨ release.predecessorReceiptHash ≠ some receiptHash
        ∨ release.authorization.requestId ∈ requestIds then
      throw .incompleteInventory
    return release.authorization.requestId :: requestIds

/-- The loop over the holds: those before this one, the terms already renewed and the
request identifiers already used. -/
def validateHolds (prim : CryptoPrimitives) (keyId : ComplianceKeyId) :
    List LegalHold → List Bytes32 → List Bytes32 → List LegalHold → Except ComplianceError Unit
  | _, _, _, [] => .ok ()
  | before, childPredecessors, requestIds, hold :: rest => do
    hold.termReceipt.validate prim
    if hold.termReceipt.keyId ≠ keyId
        ∨ (hold.termReceipt.action ≠ .place ∧ hold.termReceipt.action ≠ .renew)
        ∨ hold.holdId ∈ before.map LegalHold.holdId
        ∨ hold.termReceipt.authorization.requestId ∈ requestIds then
      throw .incompleteInventory
    let childPredecessors ← validateRenewal prim before childPredecessors hold
    let requestIds ← validateRelease prim keyId hold
      (hold.termReceipt.authorization.requestId :: requestIds)
    validateHolds prim keyId (before ++ [hold]) childPredecessors requestIds rest

namespace DestructionInventory

def validate (prim : CryptoPrimitives) (inventory : DestructionInventory) :
    Except ComplianceError Unit := do
  inventory.retentionPolicy.validate
  let requiredRetention ← inventory.retentionPolicy.retentionUntil inventory.keyId
  if inventory.keyId.validate ≠ .ok ()
      ∨ !(complianceEpochEndMs inventory.keyId).isOk
      ∨ inventory.createdAtMs ≠ inventory.keyId.epochStartMs
      ∨ inventory.retentionUntilMs ≠ requiredRetention
      ∨ inventory.copies.isEmpty ∨ inventory.copies.length > maxInventoryCopies
      ∨ inventory.holds.length > maxInventoryHolds
      ∨ inventory.traceIntegrity.any (·.terminalManifestCommitment == zero32)
      ∨ requiredCopyKinds.any fun kind => !inventory.copies.any fun copy => copy.kind == kind then
    throw .incompleteInventory
  let copyIds := (inventory.copies.map KeyCopy.copyId).insertionSort fun a b => a.toList ≤ b.toList
  if zero32 ∈ copyIds ∨ anyAdjacent (· == ·) copyIds
      ∨ anyAdjacent (fun left right => !left.precedes right) inventory.copies then
    throw .incompleteInventory
  if !inventory.copies.all inventory.state.allowsCopy then throw .incompleteInventory
  validateHolds prim inventory.keyId [] [] [] inventory.holds

def new (keyId : ComplianceKeyId) (createdAtMs : UInt64)
    (retentionPolicy : RetentionPolicy) (copies : List KeyCopy) :
    Except ComplianceError DestructionInventory := do
  let retentionUntilMs ← retentionPolicy.retentionUntil keyId
  let inventory : DestructionInventory := {
    keyId, retentionPolicy, createdAtMs, retentionUntilMs
    state := .retained
    traceIntegrity := none
    copies := canonicalizeCopies copies
    holds := [] }
  inventory.validate prim
  return inventory

/-! ### Encoding -/

def encodeIntegrity : Option TraceIntegrityEvidence → Bytes
  | none => [0]
  | some evidence =>
    (match evidence.status with
      | .verified => 1
      | .degraded => 2) :: evidence.terminalManifestCommitment.toList

def encodeHold (hold : LegalHold) : Except ComplianceError Bytes := do
  let term ← hold.termReceipt.encode
  match hold.releaseReceipt with
  | none => return term ++ [0]
  | some release =>
    let release ← release.encode
    return term ++ [1] ++ release

def encodeHolds : List LegalHold → Except ComplianceError Bytes
  | [] => .ok []
  | hold :: rest => do
    let encoded ← encodeHold hold
    let others ← encodeHolds rest
    return encoded ++ others

def encode (prim : CryptoPrimitives) (inventory : DestructionInventory) :
    Except ComplianceError Bytes := do
  inventory.validate prim
  let keyId ← inventory.keyId.encode.mapError fun _ => .incompleteInventory
  let holds ← encodeHolds inventory.holds
  return inventoryMagic ++ [inventoryVersion] ++ keyId
    ++ [inventory.retentionPolicy.version] ++ beBytes 2 inventory.retentionPolicy.usDays.toNat
    ++ beBytes 2 inventory.retentionPolicy.euDays.toNat
    ++ beBytes 2 inventory.retentionPolicy.trDays.toNat
    ++ beBytes 2 inventory.retentionPolicy.testDays.toNat
    ++ inventory.retentionPolicy.counselApprovalCommitment.toList
    ++ beBytes 8 inventory.createdAtMs.toNat ++ beBytes 8 inventory.retentionUntilMs.toNat
    ++ [inventory.state.toByte] ++ encodeIntegrity inventory.traceIntegrity
    ++ [UInt8.ofNat inventory.copies.length] ++ inventory.copies.flatMap KeyCopy.encode
    ++ [UInt8.ofNat inventory.holds.length] ++ holds

/-- Only the current version carries the integrity of a trace. -/
def decodeIntegrity (version : UInt8) : InventoryReader (Option TraceIntegrityEvidence) := do
  if version ≠ inventoryVersion then return none
  let status ← u8
  if status = 0 then return none
  if status ≠ 1 ∧ status ≠ 2 then throw .incompleteInventory
  let commitment ← array32
  let evidence ← Reader.check
    (TraceIntegrityEvidence.new (if status = 1 then .verified else .degraded) commitment)
  return some evidence

def decodeHold : InventoryReader LegalHold := do
  let termReceipt ← LegalHoldReceipt.decode prim
  let released ← u8
  if released = 0 then return { termReceipt, releaseReceipt := none }
  if released ≠ 1 then throw .incompleteInventory
  let release ← LegalHoldReceipt.decode prim
  return { termReceipt, releaseReceipt := some release }

/-- Everything behind the magic and the version. -/
def decodeBody (version : UInt8) :
    InventoryReader DestructionInventory := do
  let keyId ← take complianceKeyIdLen
  let keyId ← Reader.check ((ComplianceKeyId.decode keyId).mapError fun _ => .incompleteInventory)
  let policyVersion ← u8
  let usDays ← u16
  let euDays ← u16
  let trDays ← u16
  let testDays ← u16
  let counselApprovalCommitment ← array32
  let createdAtMs ← u64
  let retentionUntilMs ← u64
  let state ← u8
  let state ← Reader.check (inventoryStateFromByte state)
  let traceIntegrity ← decodeIntegrity version
  let copyCount ← u8
  if copyCount = 0 ∨ copyCount.toNat > maxInventoryCopies then throw .incompleteInventory
  let copies ← Reader.many KeyCopy.decode copyCount.toNat
  let holdCount ← u8
  if holdCount.toNat > maxInventoryHolds then throw .incompleteInventory
  let holds ← Reader.many (decodeHold prim) holdCount.toNat
  return {
    keyId
    retentionPolicy := {
      version := policyVersion
      usDays, euDays, trDays, testDays, counselApprovalCommitment }
    createdAtMs, retentionUntilMs, state, traceIntegrity, copies, holds }

def decode (bytes : Bytes) :
    Except ComplianceError DestructionInventory := do
  if bytes.length < inventoryMagic.length + 1 + complianceKeyIdLen + (1 + 2 + 2 + 2 + 2 + 32)
        + 8 + 8 + 1 + 1 + 1
      ∨ bytes.take inventoryMagic.length ≠ inventoryMagic then
    throw .incompleteInventory
  let version := bytes.getD inventoryMagic.length 0
  if version ≠ legacyInventoryVersion ∧ version ≠ inventoryVersion then throw .incompleteInventory
  let (inventory, rest) ← decodeBody prim version (bytes.drop (inventoryMagic.length + 1))
  if rest ≠ [] then throw .incompleteInventory
  inventory.validate prim
  return inventory

end DestructionInventory

/-! ## Operations -/

abbrev InventoryMethod (α : Type) : Type := Method ComplianceError DestructionInventory α

namespace DestructionInventory

open Method

/-- Whether the policy changed and how many copies were added. -/
def updatePolicyAndCopiesMonotonic (proposedPolicy : RetentionPolicy)
    (proposed : List KeyCopy) : InventoryMethod (Bool × ℕ) := do
  let inventory : DestructionInventory ← get
  if inventory.state ≠ .retained then throw .stateConflict
  check proposedPolicy.validate
  let proposed := canonicalizeCopies proposed
  let policyChanged := decide (proposedPolicy ≠ inventory.retentionPolicy)
  if proposed.length < inventory.copies.length
      ∨ (inventory.copies.any fun existing => !proposed.any fun candidate => candidate == existing)
      ∨ (proposed.length = inventory.copies.length ∧ policyChanged = false)
      ∨ (policyChanged = true ∧ proposedPolicy.counselApprovalCommitment
        = inventory.retentionPolicy.counselApprovalCommitment) then
    throw .stateConflict
  let proposedRetentionUntil ← check (proposedPolicy.retentionUntil inventory.keyId)
  if proposedRetentionUntil < inventory.retentionUntilMs then throw .stateConflict
  let candidate := { inventory with
    retentionPolicy := proposedPolicy
    retentionUntilMs := proposedRetentionUntil
    copies := proposed }
  check (candidate.validate prim)
  set candidate
  return (policyChanged, proposed.length - inventory.copies.length)

def updateCopiesMonotonic (proposed : List KeyCopy) :
    InventoryMethod ℕ := do
  let inventory : DestructionInventory ← get
  let (_, added) ← updatePolicyAndCopiesMonotonic prim inventory.retentionPolicy proposed
  return added

def placeHoldInner (startsAtMs expiresAtMs : UInt64)
    (predecessor : Option (Bytes32 × Bytes32)) (authorization : LegalHoldAuthorization) :
    InventoryMethod Bytes32 := do
  let inventory : DestructionInventory ← get
  if inventory.state ≠ .retained ∨ inventory.holds.length ≥ maxInventoryHolds then
    throw .stateConflict
  if expiresAtMs < startsAtMs then throw .invalidRequest
  let term := expiresAtMs - startsAtMs
  if startsAtMs = 0 ∨ term = 0 ∨ term.toNat > maxHoldTermMs then throw .invalidRequest
  let predecessorHoldId := predecessor.map Prod.fst
  let holdId ← check (canonicalHoldId prim inventory.keyId startsAtMs expiresAtMs
    predecessorHoldId authorization)
  let receipt : LegalHoldReceipt := {
    action := if predecessor.isSome then .renew else .place
    holdId
    keyId := inventory.keyId
    startsAtMs, expiresAtMs
    actedAtMs := authorization.createdAtMs
    predecessorHoldId
    predecessorReceiptHash := predecessor.map Prod.snd
    authorization }
  check (receipt.validate prim)
  let candidate := { inventory with
    holds := inventory.holds ++ [LegalHold.mk receipt none] }
  check (candidate.validate prim)
  set candidate
  return holdId

def placeHold (startsAtMs expiresAtMs : UInt64)
    (authorization : LegalHoldAuthorization) : InventoryMethod Bytes32 :=
  placeHoldInner prim startsAtMs expiresAtMs none authorization

def renewHold (priorHoldId : Bytes32) (startsAtMs expiresAtMs : UInt64)
    (authorization : LegalHoldAuthorization) : InventoryMethod Bytes32 := do
  let inventory : DestructionInventory ← get
  match inventory.holds.find? fun hold => hold.holdId = priorHoldId with
  | none => throw .stateConflict
  | some prior =>
    if !prior.activeAt startsAtMs
        ∨ inventory.holds.any fun hold => hold.renews = some priorHoldId then
      throw .stateConflict
    let receiptHash ← check (prior.termReceipt.receiptHash prim)
    placeHoldInner prim startsAtMs expiresAtMs (some (priorHoldId, receiptHash)) authorization

def releaseHold (holdId : Bytes32) (releasedAtMs : UInt64)
    (authorization : LegalHoldAuthorization) : InventoryMethod Unit := do
  let inventory : DestructionInventory ← get
  if inventory.state ≠ .retained then throw .stateConflict
  let index := inventory.holds.findIdx fun hold => hold.holdId = holdId
  match inventory.holds[index]? with
  | none => throw .stateConflict
  | some hold =>
    if !hold.activeAt releasedAtMs ∨ hold.releaseReceipt.isSome then throw .stateConflict
    let receiptHash ← check (hold.termReceipt.receiptHash prim)
    let receipt : LegalHoldReceipt := {
      action := .release
      holdId
      keyId := inventory.keyId
      startsAtMs := hold.startsAtMs
      expiresAtMs := hold.expiresAtMs
      actedAtMs := authorization.createdAtMs
      predecessorHoldId := some holdId
      predecessorReceiptHash := some receiptHash
      authorization }
    if releasedAtMs ≠ receipt.actedAtMs then throw .invalidRequest
    check (receipt.validate prim)
    let candidate := { inventory with
      holds := inventory.holds.set index { hold with releaseReceipt := some receipt } }
    check (candidate.validate prim)
    set candidate

def recordTraceIntegrity (evidence : TraceIntegrityEvidence) : InventoryMethod Unit := do
  let inventory : DestructionInventory ← get
  if inventory.state = .shredded ∨ evidence.terminalManifestCommitment = zero32 then
    throw .stateConflict
  match inventory.traceIntegrity with
  | none => set { inventory with traceIntegrity := some evidence }
  | some existing =>
    if existing.terminalManifestCommitment ≠ evidence.terminalManifestCommitment then
      throw .stateConflict
    let status := if existing.status = .degraded ∨ evidence.status = .degraded then .degraded
      else .verified
    set { inventory with traceIntegrity := some { existing with status } }

def beginShred (atMs : UInt64) : InventoryMethod Unit := do
  let inventory : DestructionInventory ← get
  if inventory.state ≠ .retained then throw .stateConflict
  let epochEndMs ← check ((complianceEpochEndMs inventory.keyId).mapError
    fun _ => .incompleteInventory)
  if atMs.toNat < epochEndMs ∨ atMs < inventory.retentionUntilMs then throw .retentionActive
  if inventory.holds.any fun hold => hold.activeAt atMs then throw .legalHoldActive
  set { inventory with
    state := .shredding
    copies := inventory.copies.map KeyCopy.requestDestruction }

/-- What the two records of a destroyed copy share: the new state of the copy and its evidence. -/
def recordCopy (state : CopyState) (copyId commitment : Bytes32) : InventoryMethod Unit := do
  let inventory : DestructionInventory ← get
  if inventory.state ≠ .shredding ∨ commitment = zero32 then throw .stateConflict
  let index := inventory.copies.findIdx fun copy => copy.copyId = copyId
  match inventory.copies[index]? with
  | none => throw .unknownCopy
  | some copy =>
    if copy.state ≠ .destructionRequested then throw .stateConflict
    set { inventory with
      copies := inventory.copies.set index
        { copy with state, destructionEvidence := some commitment } }

def recordDestroyed (copyId receiptCommitment : Bytes32) : InventoryMethod Unit :=
  recordCopy .destroyed copyId receiptCommitment

def recordVerifiedAbsent (copyId evidenceCommitment : Bytes32) : InventoryMethod Unit :=
  recordCopy .verifiedAbsent copyId evidenceCommitment

def completeShred : InventoryMethod Unit := do
  let inventory : DestructionInventory ← get
  if inventory.state ≠ .shredding
      ∨ inventory.copies.any fun copy =>
        !(copy.state == .destroyed || copy.state == .verifiedAbsent)
          || copy.destructionEvidence.isNone then
    throw .incompleteInventory
  set { inventory with state := .shredded }

end DestructionInventory

end Pigeonpost
