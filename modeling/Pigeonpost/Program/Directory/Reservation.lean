import Pigeonpost.Program.Directory.Mutation

/-! # Reserving and finalizing mutations (`pigeonpost-directory/src/directory.rs`) -/

namespace Pigeonpost.Directory

structure ReservedMutation (H T : Type) where
  mutation : T
  previousCheckpoint : Option (PersistedRegistryCheckpoint H)

variable {H F : Type} [Sha256 H] [DecidableEq H]

/-- `reservation_id` is unique beside the primary key `endpoint`. -/
def insertReservation (db : Directory H F) (row : ReservationRow H) :
    Except DirectoryError (Directory H F) := do
  if db.reservations.rows.any fun old => old.reservationId = row.reservationId then
    throw (.storage
      "UNIQUE constraint failed: directory_mutation_reservations.reservation_id")
  let reservations ← okOr (db.reservations.insert row)
    (.storage "UNIQUE constraint failed: directory_mutation_reservations.endpoint")
  return { db with reservations := reservations }

def consumeReservation (db : Directory H F) (id : H) : Except DirectoryError (Directory H F) :=
  if db.reservations.count (fun row => row.reservationId = id) ≠ 1 then .error .replay
  else .ok { db with reservations := db.reservations.delete fun row => row.reservationId = id }

variable (ctx : DirectoryContext F)

section Add

variable [F64 F]

def reserveAdd (db : Directory H F) (entry : DirectoryEntry F) (now : ℕ) :
    Except DirectoryError (Directory H F × ReservedMutation H DirectoryAdd) := do
  let mutation ← entry.registryAddition ctx.prim
  let canonicalMutation ← boundedMutationBytes (ctx.json.addition mutation)
  let localRequest ← boundedLocalRequest (ctx.json.entry entry)
  let id : H := reservationId .add canonicalMutation localRequest
  let sequence ← sqlU64 entry.sequence.toNat "entry sequence"
  let reservedAt ← sqlU64 now "reservation time"
  let db ← db.expirePending now
  let db ← db.expirePendingClaims now
  match db.reservations.lookup entry.endpoint with
  | some row =>
    ensureExactReservation row id .add entry.pubkey sequence canonicalMutation localRequest
    let previousCheckpoint ← db.registryCheckpointFrom
    return (db, ⟨mutation, previousCheckpoint⟩)
  | none =>
    db.ensureReservationCapacity
    -- the savepoint: the projection is computed and rolled back
    let projected ← applySubmission ctx.prim db entry now true
    let db ← db.insertReservation
      { reservationId := id
        endpoint := entry.endpoint
        operation := .add
        loftPubkey := entry.pubkey
        mutationSequence := sequence
        canonicalMutation := canonicalMutation
        localRequest := localRequest
        reservedAt := reservedAt
        capacitySlot := projected.pendingLoad > db.pendingLoad }
    let previousCheckpoint ← db.registryCheckpointFrom
    return (db, ⟨mutation, previousCheckpoint⟩)

def finalizeAdd (db : Directory H F) (entry : DirectoryEntry F)
    (checkpoint : PersistedRegistryCheckpoint H) : Except DirectoryError (Directory H F) := do
  validatePersistedCheckpoint checkpoint
  let mutation ← entry.registryAddition ctx.prim
  let canonicalMutation ← boundedMutationBytes (ctx.json.addition mutation)
  let localRequest ← boundedLocalRequest (ctx.json.entry entry)
  let id : H := reservationId .add canonicalMutation localRequest
  let sequence ← sqlU64 entry.sequence.toNat "entry sequence"
  match db.reservations.lookup entry.endpoint with
  | some row =>
    ensureExactReservation row id .add entry.pubkey sequence canonicalMutation localRequest
    let db ← db.consumeReservation id
    let db ← applySubmission ctx.prim db entry row.reservedAt true
    db.acceptRegistryCheckpointIn checkpoint
  | none =>
    let applied ← addIsExactlyApplied ctx.prim db entry
    if !applied then throw .replay
    db.acceptRegistryCheckpointIn checkpoint

end Add

def reserveDrain (db : Directory H F) (authorization : DrainAuthorization) (now : ℕ) :
    Except DirectoryError (Directory H F × ReservedMutation H DirectoryRemove) := do
  let localRequest ← boundedLocalRequest (ctx.json.authorization authorization)
  let reservedAt ← sqlU64 now "reservation time"
  let sequence ← sqlU64 authorization.sequence.toNat "drain sequence"
  let loftPubkey ← drainLoftPubkey ctx.prim db authorization
  let mutation := authorization.registryRemoval loftPubkey
  let canonicalMutation ← boundedMutationBytes (ctx.json.removal mutation)
  let id : H := reservationId .drain canonicalMutation localRequest
  match db.reservations.lookup authorization.endpoint with
  | some row =>
    ensureExactReservation row id .drain loftPubkey sequence canonicalMutation localRequest
    let previousCheckpoint ← db.registryCheckpointFrom
    return (db, ⟨mutation, previousCheckpoint⟩)
  | none =>
    db.ensureReservationCapacity
    let _ ← applyDrain ctx.prim db authorization true
    let db ← db.insertReservation
      { reservationId := id
        endpoint := authorization.endpoint
        operation := .drain
        loftPubkey := loftPubkey
        mutationSequence := sequence
        canonicalMutation := canonicalMutation
        localRequest := localRequest
        reservedAt := reservedAt
        capacitySlot := false }
    let previousCheckpoint ← db.registryCheckpointFrom
    return (db, ⟨mutation, previousCheckpoint⟩)

def finalizeDrain (db : Directory H F) (authorization : DrainAuthorization)
    (checkpoint : PersistedRegistryCheckpoint H) : Except DirectoryError (Directory H F) := do
  validatePersistedCheckpoint checkpoint
  let localRequest ← boundedLocalRequest (ctx.json.authorization authorization)
  let loftPubkey ← drainLoftPubkey ctx.prim db authorization
  let mutation := authorization.registryRemoval loftPubkey
  let canonicalMutation ← boundedMutationBytes (ctx.json.removal mutation)
  let id : H := reservationId .drain canonicalMutation localRequest
  let sequence ← sqlU64 authorization.sequence.toNat "drain sequence"
  match db.reservations.lookup authorization.endpoint with
  | some row =>
    ensureExactReservation row id .drain loftPubkey sequence canonicalMutation localRequest
    let db ← db.consumeReservation id
    let db ← applyDrain ctx.prim db authorization true
    db.acceptRegistryCheckpointIn checkpoint
  | none =>
    let applied ← drainIsExactlyApplied ctx.prim db authorization mutation
    if !applied then throw .replay
    db.acceptRegistryCheckpointIn checkpoint

end Pigeonpost.Directory
