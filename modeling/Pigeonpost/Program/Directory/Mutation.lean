import Pigeonpost.Program.Directory.Tables

/-! # Directory mutations (`pigeonpost-directory/src/directory.rs`)

A mutation is reserved, witnessed by the registry and then projected. The functions here
are transactions: they return the database they commit, or an error that rolls back. -/

namespace Pigeonpost.Directory

variable {H F : Type}

def pendingLoad (db : Directory H F) : ℕ :=
  db.lofts.count (fun row => row.state == .pending)
    + db.pendingClaims.count (fun _ => true)
    + db.reservations.count fun row => row.capacitySlot

def reserved (db : Directory H F) (endpoint : Bytes) : Bool :=
  (db.reservations.lookup endpoint).isSome

def ensurePendingCapacity (db : Directory H F) : Except DirectoryError Unit :=
  if db.pendingLoad ≥ maxPendingEntries then .error .unavailable else .ok ()

def ensureReservationCapacity (db : Directory H F) : Except DirectoryError Unit :=
  if db.reservations.count (fun _ => true) ≥ maxMutationReservations then .error .unavailable
  else .ok ()

/-! ## Expiry -/

/-- Whether a pending loft has had its time and no mutation of it is reserved. -/
def loftExpired (db : Directory H F) (cutoff : ℕ) (row : LoftRow F) : Bool :=
  row.state == .pending && row.firstSeen ≤ cutoff && !db.reserved row.endpoint

def expireLoft (now : ℕ) (row : LoftRow F) : LoftRow F :=
  { row with
    entry := { row.entry with state := .removed }
    state := .removed
    degradedAt := some now
    cleanSince := none
    nextProbeAt := i64Max }

def expirePending (db : Directory H F) (now : ℕ) : Except DirectoryError (Directory H F) :=
  if now < pendingExpireSecs then .ok db
  else do
    let cutoff ← sqlU64 (now - pendingExpireSecs) "pending expiry cutoff"
    let removedAt ← sqlU64 now "pending expiry time"
    return { db with
      lofts := db.lofts.update
        (fun row => if db.loftExpired cutoff row then expireLoft removedAt row else row)
        fun row => by split <;> rfl
      retentionCanaries := db.retentionCanaries.delete fun canary =>
        (db.lofts.lookup canary.endpoint).any (db.loftExpired cutoff) }

def expirePendingClaims (db : Directory H F) (now : ℕ) : Except DirectoryError (Directory H F) :=
  if now < pendingExpireSecs then .ok db
  else do
    let cutoff ← sqlU64 (now - pendingExpireSecs) "candidate expiry cutoff"
    return { db with
      pendingClaims := db.pendingClaims.delete fun row =>
        row.firstSeen ≤ cutoff && !db.reserved row.endpoint }

/-! ## Submissions -/

section Submission

variable [F64 F]

/-- What a first claim and a replaced one have in common: no observation survives. -/
def asCandidate (entry : DirectoryEntry F) : DirectoryEntry F :=
  { entry with
    state := .pending
    health := .default
    utilization := F64.zero
    drainAfter := none
    lastMutationSequence := entry.sequence }

/-- An equal sequence is accepted only as a retry of the same addition. -/
def ensureExactRetry (prim : Primitives) (allowExactRetry : Bool)
    (previous entry : DirectoryEntry F) : Except DirectoryError Unit := do
  if !allowExactRetry then throw .replay
  let stored ← previous.registryAddition prim
  let submitted ← entry.registryAddition prim
  if stored ≠ submitted then throw .replay

/-- A new version of an entry by its own key: the directory's observations stay. -/
def revisedRow (entry : DirectoryEntry F) (sequence : ℕ) (old : LoftRow F) : LoftRow F :=
  { old with
    entry := { entry with
      health := old.entry.health
      utilization := old.entry.utilization
      state := old.entry.state
      drainAfter := old.entry.drainAfter
      lastMutationSequence := entry.sequence }
    mutationSequence := sequence }

/-- A removed loft starts its probation again. -/
def reenrolledRow (entry : DirectoryEntry F) (sequence firstSeen : ℕ) (old : LoftRow F) :
    LoftRow F :=
  { old with
    entry := asCandidate entry
    mutationSequence := sequence
    state := .pending
    firstSeen := firstSeen
    lastProbe := 0
    failStreak := 0
    probesOk := 0
    probesTotal := 0
    degradedAt := none
    drainAfter := none
    cleanSince := none
    nextProbeAt := firstSeen }

/-- The branch of `apply_submission` for the key that is already bound to the endpoint. -/
def resubmit (prim : Primitives) (db : Directory H F) (row : LoftRow F)
    (entry : DirectoryEntry F) (sequence now : ℕ) (allowExactRetry : Bool) :
    Except DirectoryError (Directory H F) := do
  if sequence < row.mutationSequence then throw .replay
  if sequence = row.mutationSequence then
    ensureExactRetry prim allowExactRetry row.entry entry
    return db
  if row.entry.state = .removed then
    let firstSeen ← sqlU64 now "reenrollment time"
    ensurePendingCapacity db
    return { db with
      lofts := db.lofts.modify entry.endpoint (reenrolledRow entry sequence firstSeen)
        fun _ => rfl
      retentionCanaries := db.retentionCanaries.delete fun canary =>
        canary.endpoint = entry.endpoint
      probes := db.probes.filter fun probe => probe.endpoint ≠ entry.endpoint }
  return { db with
    lofts := db.lofts.modify entry.endpoint (revisedRow entry sequence) fun _ => rfl }

def revisedClaim (entry : DirectoryEntry F) (sequence : ℕ) (old : PendingClaimRow F) :
    PendingClaimRow F :=
  { old with entry := asCandidate entry, mutationSequence := sequence }

def openedClaim (entry : DirectoryEntry F) (sequence firstSeen : ℕ) : PendingClaimRow F :=
  { endpoint := entry.endpoint
    loftPubkey := entry.pubkey
    entry := asCandidate entry
    firstSeen := firstSeen
    mutationSequence := sequence
    nextProbeAt := firstSeen }

/-- The branch of `apply_submission` for another key than the one bound to the endpoint. -/
def submitCandidate (prim : Primitives) (db : Directory H F) (row : LoftRow F)
    (entry : DirectoryEntry F) (sequence now : ℕ) (allowExactRetry : Bool) :
    Except DirectoryError (Directory H F) := do
  if row.ownershipProven ∨ ¬(row.entry.state = .pending ∨ row.entry.state = .removed) then
    throw .keyMismatch
  match db.pendingClaims.lookup (entry.endpoint, entry.pubkey) with
  | some claim =>
    if sequence < claim.mutationSequence then throw .replay
    if sequence = claim.mutationSequence then
      ensureExactRetry prim allowExactRetry claim.entry entry
      return db
    return { db with
      pendingClaims := db.pendingClaims.modify (entry.endpoint, entry.pubkey)
        (revisedClaim entry sequence) fun _ => rfl }
  | none =>
    if entry.sequence.toNat > 1 then throw .replay
    ensurePendingCapacity db
    let firstSeen ← sqlU64 now "candidate submission time"
    let pendingClaims ← okOr
      (db.pendingClaims.insert (openedClaim entry sequence firstSeen))
      (.storage "UNIQUE constraint failed: pending_claims.endpoint, loft_pubkey")
    return { db with pendingClaims := pendingClaims }

/-- The first row of an endpoint; the submitted utilization stays. -/
def openedRow (entry : DirectoryEntry F) (sequence firstSeen : ℕ) : LoftRow F :=
  { endpoint := entry.endpoint
    entry := { entry with
      state := .pending
      health := .default
      drainAfter := none
      lastMutationSequence := entry.sequence }
    state := .pending
    firstSeen := firstSeen
    lastProbe := 0
    failStreak := 0
    probesOk := 0
    probesTotal := 0
    degradedAt := none
    drainAfter := none
    mutationSequence := sequence
    cleanSince := none
    nextProbeAt := firstSeen
    ownershipProven := false }

/-- The branch of `apply_submission` for an endpoint the directory does not know. -/
def submitFirst (db : Directory H F) (entry : DirectoryEntry F) (sequence now : ℕ) :
    Except DirectoryError (Directory H F) := do
  ensurePendingCapacity db
  if entry.sequence.toNat > 1 then throw .replay
  let firstSeen ← sqlU64 now "submission time"
  let lofts ← okOr (db.lofts.insert (openedRow entry sequence firstSeen))
    (.storage "UNIQUE constraint failed: lofts.endpoint")
  return { db with lofts := lofts }

def applySubmission (prim : Primitives) (db : Directory H F) (entry : DirectoryEntry F)
    (now : ℕ) (allowExactRetry : Bool) : Except DirectoryError (Directory H F) := do
  validateSubmission prim entry
  let submittedKey ← entry.verify prim
  let sequence ← sqlU64 entry.sequence.toNat "entry sequence"
  match db.lofts.lookup entry.endpoint with
  | some row =>
    let previousKey ← row.entry.verify prim
    if previousKey = submittedKey then
      resubmit prim db row entry sequence now allowExactRetry
    else submitCandidate prim db row entry sequence now allowExactRetry
  | none => submitFirst db entry sequence now

end Submission

/-! ## Drains -/

section Drain

variable (prim : Primitives)

/-- The key text bound to the endpoint, once the authorization is checked against it. -/
def drainLoftPubkey (db : Directory H F) (authorization : DrainAuthorization) :
    Except DirectoryError Bytes := do
  let row ← okOr (db.lofts.lookup authorization.endpoint) .notFound
  let key ← row.entry.verify prim
  authorization.verify prim key
  return row.entry.pubkey

/-- Whether the stored projection is the one this authorization leaves behind. -/
def drainProjected (entry : DirectoryEntry F) (authorization : DrainAuthorization) : Bool :=
  (entry.state == .draining || entry.state == .removed)
    && entry.drainAfter == some authorization.after
    && entry.lastMutationSequence == authorization.sequence

def drainedRow (authorization : DrainAuthorization) (sequence drainAfter : ℕ)
    (old : LoftRow F) : LoftRow F :=
  { old with
    entry := { old.entry with
      state := .draining
      drainAfter := some authorization.after
      lastMutationSequence := authorization.sequence }
    state := .draining
    drainAfter := some drainAfter
    mutationSequence := sequence }

def applyDrain (db : Directory H F) (authorization : DrainAuthorization)
    (allowExactRetry : Bool) : Except DirectoryError (Directory H F) := do
  let sequence ← sqlU64 authorization.sequence.toNat "drain sequence"
  let drainAfter ← sqlU64 authorization.after.toNat "drain time"
  let row ← okOr (db.lofts.lookup authorization.endpoint) .notFound
  let key ← row.entry.verify prim
  authorization.verify prim key
  if sequence < row.mutationSequence then throw .replay
  if sequence = row.mutationSequence then
    if allowExactRetry && drainProjected row.entry authorization then return db
    throw .replay
  if !row.ownershipProven ∨ row.entry.state = .pending ∨ row.entry.state = .removed then
    throw .notReady
  return { db with
    lofts := db.lofts.modify authorization.endpoint
      (drainedRow authorization sequence drainAfter) fun _ => rfl }

def drainIsExactlyApplied (db : Directory H F) (authorization : DrainAuthorization)
    (mutation : DirectoryRemove) : Except DirectoryError Bool :=
  match db.lofts.lookup authorization.endpoint with
  | none => .ok false
  | some row => do
    let key ← row.entry.verify prim
    authorization.verify prim key
    let sequence ← sqlU64 authorization.sequence.toNat "drain sequence"
    return row.mutationSequence == sequence && drainProjected row.entry authorization
      && authorization.registryRemoval row.entry.pubkey == mutation

def addIsExactlyApplied (db : Directory H F) (entry : DirectoryEntry F) :
    Except DirectoryError Bool := do
  let sequence ← sqlU64 entry.sequence.toNat "entry sequence"
  let primary ← match db.lofts.lookup entry.endpoint with
    | none => (pure false : Except DirectoryError Bool)
    | some row =>
      if row.mutationSequence = sequence then do
        let stored ← row.entry.registryAddition prim
        let submitted ← entry.registryAddition prim
        return stored == submitted
      else pure false
  if primary then return true
  match db.pendingClaims.lookup (entry.endpoint, entry.pubkey) with
  | none => return false
  | some claim =>
    if claim.mutationSequence = sequence then do
      let stored ← claim.entry.registryAddition prim
      let submitted ← entry.registryAddition prim
      return stored == submitted
    else return false

end Drain

/-! ## The witnessed checkpoint -/

section Checkpoints

variable [Sha256 H] [DecidableEq H]

def registryCheckpointFrom (db : Directory H F) :
    Except DirectoryError (Option (PersistedRegistryCheckpoint H)) :=
  match db.registryCheckpoint with
  | none => .ok none
  | some checkpoint => do
    validatePersistedCheckpoint checkpoint
    return some checkpoint

def acceptRegistryCheckpointIn (db : Directory H F)
    (checkpoint : PersistedRegistryCheckpoint H) : Except DirectoryError (Directory H F) := do
  validatePersistedCheckpoint checkpoint
  match db.registryCheckpoint with
  | none => return { db with registryCheckpoint := some checkpoint }
  | some previous =>
    validatePersistedCheckpoint previous
    if previous.origin ≠ checkpoint.origin
        ∨ checkpoint.size < previous.size
        ∨ (checkpoint.size = previous.size ∧ checkpoint.root ≠ previous.root) then
      throw (.registryProof "registry checkpoint rolled back or equivocated")
    if checkpoint.size = previous.size ∧ checkpoint.witnessedAt < previous.witnessedAt then
      throw (.registryProof "registry witness timestamp rolled back")
    return { db with registryCheckpoint := some checkpoint }

end Checkpoints

end Pigeonpost.Directory
