import Pigeonpost.Library.Outcome
import Pigeonpost.Program.Storage.Append
import Pigeonpost.Program.Witness.Client

/-! # Witness receipts and the published head

The transactions of `pigeonpost-registry/src/storage.rs`, and the operations of
`registry.rs` that verify a receipt before it is saved and pick the receipts a head is
published with. -/

namespace Pigeonpost

variable {H : Type} [Sha256 H] [DecidableEq H]

def maxReceiptJsonBytes : ℕ := 64 * 1024

def validReceiptColumns (witnessName : Bytes) (witnessedAt : ℕ) (receiptJson : Bytes) : Bool :=
  !(witnessName.isEmpty
    || decide (witnessName.length > 256)
    || witnessName.any (fun b => isAsciiControl b || isAsciiWhitespace b)
    || witnessedAt == 0
    || receiptJson.isEmpty
    || decide (receiptJson.length > maxReceiptJsonBytes))

namespace Store

/-- Whether the stored receipt of a witness makes a new one redundant. -/
def receiptRedundant (previous : WitnessReceiptRow H) (size : ℕ) (root : H) (witnessedAt : ℕ)
    (receiptJson : Bytes) : Except RegistryError Bool := do
  if size < previous.treeSize ∨ (size = previous.treeSize ∧ root ≠ previous.root) then
    throw .witnessConflict
  if size = previous.treeSize ∧ witnessedAt < previous.witnessedAt then return true
  if size = previous.treeSize ∧ witnessedAt = previous.witnessedAt then
    if receiptJson ≠ previous.receiptJson then throw .witnessConflict
    return true
  return false

def upsertReceipt (nowMs : ℕ) (row : WitnessReceiptRow H) (s : Store H) :
    Except RegistryError (Store H × Bool) := do
  let treeSize ← toI64 row.treeSize "witness receipt size"
  let witnessedAt ← toI64 row.witnessedAt "witness receipt timestamp"
  let _ ← toI64 nowMs "timestamp"
  let row := { row with treeSize, witnessedAt }
  return ({ s with witnessReceipts := Table.upsert (·.witnessName) row s.witnessReceipts }, true)

def saveWitnessReceipt (nowMs : ℕ) (witnessName : Bytes) (size : ℕ) (root : H)
    (witnessedAt : ℕ) (receiptJson : Bytes) (s : Store H) :
    Except RegistryError (Store H × Bool) := do
  if !validReceiptColumns witnessName witnessedAt receiptJson then throw .witnessConflict
  if size > s.registryState.size then throw .witnessConflict
  let committedRoot ← s.rootForSize size
  if committedRoot ≠ root then throw .witnessConflict
  let row : WitnessReceiptRow H := ⟨witnessName, size, root, witnessedAt, receiptJson⟩
  match s.witnessReceipts.find? fun row => row.witnessName = witnessName with
  | none => s.upsertReceipt nowMs row
  | some previous =>
    let redundant ← receiptRedundant previous size root witnessedAt receiptJson
    if redundant then return (s, false)
    s.upsertReceipt nowMs row

def witnessReceiptJsonsAt (s : Store H) (size : ℕ) (root : H) :
    Except RegistryError (List Bytes) := do
  let size ← toI64 size "witness receipt size"
  let rows := s.witnessReceipts.filter fun row => row.treeSize = size ∧ row.root = root
  return ((rows.mergeSort fun left right => left.witnessName ≤ right.witnessName).take 64).map
    (·.receiptJson)

def promotePublishedState (checkpoint : Checkpoint H) (note : Bytes) (witnessedAt : ℕ)
    (s : Store H) : Except RegistryError (Store H × Bool) := do
  if witnessedAt = 0 ∨ note.isEmpty ∨ note.length > maxCheckpointBytes then throw .witnessConflict
  if checkpoint.size > s.registryState.size then throw .witnessConflict
  let committedRoot ← s.rootForSize checkpoint.size
  if committedRoot ≠ checkpoint.root then throw .witnessConflict
  let current := s.publishedState
  if checkpoint.size < current.state.size
      ∨ (checkpoint.size = current.state.size ∧ checkpoint.root ≠ current.state.root) then
    throw .witnessConflict
  if checkpoint.size = current.state.size ∧ current.witnessedAt.any (· ≥ witnessedAt) then
    return (s, false)
  let treeSize ← toI64 checkpoint.size "published tree size"
  let witnessedAt ← toI64 witnessedAt "published witness timestamp"
  return ({ s with
    publishedState := ⟨⟨treeSize, checkpoint.root, note⟩, some witnessedAt⟩ }, true)

end Store

/-! ## The witness policy (`witness.rs`) -/

structure WitnessPolicy where
  witnesses : List WitnessKey
  threshold : ℕ
  maxCosignatureAgeSecs : ℕ
  futureClockSkewSecs : ℕ

namespace WitnessPolicy

variable [HashBytes H] (sigs : Signatures)

def verifyCheckpoint (policy : WitnessPolicy) (note operatorKey : Bytes) (nowSecs : ℕ) :
    Except WitnessError (VerifiedCheckpoint H) :=
  (Checkpoint.verifyWithFreshWitnesses sigs note operatorKey policy.witnesses policy.threshold
    nowSecs policy.maxCosignatureAgeSecs policy.futureClockSkewSecs).mapError
      fun _ => .invalidCosignature

def receiptLine (policy : WitnessPolicy) (target : Checkpoint H) (operatorKey : Bytes)
    (nowSecs : ℕ) (witness : WitnessKey) (receipt : WitnessReceipt H) :
    Except WitnessError Bytes := do
  if receipt.version ≠ WitnessClient.receiptVersion ∨ receipt.origin ≠ target.origin
      ∨ receipt.size ≠ target.size ∨ receipt.root ≠ target.root then
    throw .invalidCosignature
  let verified : VerifiedCheckpoint H ← (Checkpoint.verifyWithFreshWitnesses sigs receipt.note
    operatorKey [witness] 1 nowSecs policy.maxCosignatureAgeSecs
      policy.futureClockSkewSecs).mapError fun _ => .invalidCosignature
  if verified.witnessedAt ≠ some receipt.witnessedAt then throw .invalidCosignature
  match splitOnceAt [newline, newline] receipt.note with
  | none => throw .invalidCosignature
  | some (_, signatures) =>
    okOr ((lines signatures).find? (WitnessClient.lineStart witness.name).isPrefixOf)
      .invalidCosignature

/-- The loop over the receipts. Receipts of witnesses outside the policy are skipped. -/
def appendReceipts (policy : WitnessPolicy) (target : Checkpoint H) (operatorKey : Bytes)
    (nowSecs : ℕ) : List (WitnessReceipt H) → List Bytes → Bytes → Except WitnessError Bytes
  | [], _, note => .ok note
  | receipt :: rest, names, note =>
    match policy.witnesses.find? fun witness => witness.name = receipt.witnessName with
    | none => policy.appendReceipts target operatorKey nowSecs rest names note
    | some witness => do
      if witness.name ∈ names then throw .invalidCosignature
      let line ← policy.receiptLine sigs target operatorKey nowSecs witness receipt
      let note ← WitnessClient.appendSignature note line
      policy.appendReceipts target operatorKey nowSecs rest (witness.name :: names) note

def assembleCheckpoint (policy : WitnessPolicy) (operatorNote operatorKey : Bytes)
    (receipts : List (WitnessReceipt H)) (nowSecs : ℕ) :
    Except WitnessError (VerifiedCheckpoint H × Bytes) := do
  if receipts.length > policy.witnesses.length ∨ operatorNote.length > maxCheckpointBytes then
    throw .invalidCosignature
  let target : Checkpoint H ← (Checkpoint.verify sigs operatorNote operatorKey).mapError
    fun _ => .invalidCheckpoint
  let note ← policy.appendReceipts sigs target operatorKey nowSecs receipts [] operatorNote
  let verified ← policy.verifyCheckpoint sigs note operatorKey nowSecs
  return (verified, note)

end WitnessPolicy

/-! ## The registry's operations (`registry.rs`) -/

/-- How a receipt is written to its column and read back. -/
structure ReceiptJson (H : Type) where
  toString : WitnessReceipt H → Bytes
  fromStr : Bytes → Option (WitnessReceipt H)

namespace Store

variable [HashBytes H] (ctx : RegistryContext) (policy : Option WitnessPolicy)
  (json : ReceiptJson H)

/-- `Registry::save_witness_receipt`. -/
def submitWitnessReceipt (nowMs nowSecs : ℕ) (receipt : WitnessReceipt H) (s : Store H) :
    Except RegistryError (Store H × Bool) := do
  let policy ← okOr policy .witnessUnavailable
  let witness ← okOr (policy.witnesses.find? fun witness => witness.name = receipt.witnessName)
    .witnessConflict
  let verified : VerifiedCheckpoint H ← (Checkpoint.verifyWithFreshWitnesses ctx.sigs receipt.note
    (ctx.sigs.verifyingKey ctx.signingKey) [witness] 1 nowSecs policy.maxCosignatureAgeSecs
      policy.futureClockSkewSecs).mapError fun _ => .witnessConflict
  if verified.witnessedAt ≠ some receipt.witnessedAt ∨ verified.checkpoint.origin ≠ ctx.origin
      ∨ verified.checkpoint.size ≠ receipt.size ∨ verified.checkpoint.root ≠ receipt.root then
    throw .witnessConflict
  s.saveWitnessReceipt nowMs receipt.witnessName receipt.size receipt.root receipt.witnessedAt
    (json.toString receipt)

def parseReceipts : List Bytes → Except RegistryError (List (WitnessReceipt H))
  | [] => .ok []
  | text :: rest => do
    let receipt ← okOr (json.fromStr text)
      (.corruptStorage "persisted witness receipt is malformed")
    let receipts ← parseReceipts rest
    return receipt :: receipts

def promoteWitnessedHead (nowSecs : ℕ) (s : Store H) : Except RegistryError (Store H × Bool) := do
  let policy ← okOr policy .witnessUnavailable
  let committed := s.registryState
  let texts ← s.witnessReceiptJsonsAt committed.size committed.root
  let receipts ← parseReceipts json texts
  let (verified, note) ← (policy.assembleCheckpoint ctx.sigs committed.checkpoint
    (ctx.sigs.verifyingKey ctx.signingKey) receipts nowSecs).mapError fun _ => .witnessUnavailable
  let witnessedAt ← okOr verified.witnessedAt .witnessUnavailable
  if verified.checkpoint.origin ≠ ctx.origin ∨ verified.checkpoint.size ≠ committed.size
      ∨ verified.checkpoint.root ≠ committed.root then
    throw .witnessConflict
  s.promotePublishedState verified.checkpoint note witnessedAt

end Store

end Pigeonpost
