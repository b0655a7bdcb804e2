import Pigeonpost.Library.KeyedTable
import Pigeonpost.Program.Record

/-! # Loft storage (`pigeonpost-loft/src/store.rs`)

Every operation is one transaction: it returns the store after it, or an error and then
the store is as it was. -/

namespace Pigeonpost

inductive LoftError where
  | core (error : CoreError)
  | storage
  | serialization
  | atCapacity
  | policyChanged
  | traceUnavailable
  | configuration (message : String)
deriving DecidableEq

/-- The JSON of other crates: the writers that are not modelled, and the readers. -/
structure LoftJson where
  attribution : AttributionBlock → Bytes
  readWrap : Bytes → Option Wrap
  policy : RecipientPolicy → Bytes
  readPolicy : Bytes → Option RecipientPolicy
  agent : AgentRecord → Bytes
  readAgent : Bytes → Option AgentRecord
  readRotation : Bytes → Option RotationRecord

structure LoftContext where
  prim : Primitives
  json : LoftJson

/-! ## Accounting -/

namespace Loft

def eventStorageOverhead : ℕ := 256

def controlStorageOverhead : ℕ := 256

def controlStorageDivisor : ℕ := 20

def rotationStorageReservation : ℕ := 4 * 1024

def controlCapacityBytes (capacityBytes : ℕ) : ℕ := capacityBytes / controlStorageDivisor

def checkedAdd (a b : ℕ) : Option ℕ := if a + b < u64Limit then some (a + b) else none

def checkedSub (a b : ℕ) : Option ℕ := if b ≤ a then some (a - b) else none

def toI64 (value : ℕ) : Except LoftError ℕ :=
  if value ≤ i64Max then .ok value else .error (.core .tooLarge)

def accountedSize (blobLen identifierBytes : ℕ) : Except LoftError ℕ :=
  okOr ((checkedAdd blobLen identifierBytes).bind (checkedAdd · controlStorageOverhead))
    (.core .tooLarge)

end Loft

/-- The single row of `storage_stats`. -/
structure StorageStats where
  bytesUsed : ℕ
  eventCount : ℕ
  controlBytes : ℕ
  controlReserved : ℕ

open Loft

def replaceControlCharge (stats : StorageStats) (capacityBytes oldAccounted newAccounted
    oldReserved newReserved : ℕ) : Except LoftError StorageStats := do
  let nextControl ← okOr
    ((checkedSub stats.controlBytes oldAccounted).bind (checkedAdd · newAccounted))
    (.core (.malformedEnvelope "control storage counter mismatch"))
  let nextReserved ← okOr
    ((checkedSub stats.controlReserved oldReserved).bind (checkedAdd · newReserved))
    (.core (.malformedEnvelope "control reservation counter mismatch"))
  let nextControlTotal ← okOr (checkedAdd nextControl nextReserved) (.core .tooLarge)
  if nextControlTotal > controlCapacityBytes capacityBytes
      ∨ (checkedAdd stats.bytesUsed nextControlTotal).all (· > capacityBytes) then
    throw .atCapacity
  let control ← Loft.toI64 nextControl
  let reserved ← Loft.toI64 nextReserved
  return { stats with controlBytes := control, controlReserved := reserved }

/-! ## Tables -/

structure EventRow (H : Type) where
  cursor : ℕ
  id : H
  recipient : Bytes32
  storedAt : ℕ
  expiresAt : ℕ
  size : ℕ
  blob : Bytes

structure PolicyRow where
  pubkey : Bytes32
  seq : ℕ
  policy : Bytes
  policyVersion : UInt8
  updatedAt : ℕ
  accountedSize : ℕ

structure AgentRow where
  address : Address
  seq : ℕ
  record : Bytes
  updatedAt : ℕ
  accountedSize : ℕ
  rotationReservation : ℕ

structure RotationRow where
  fromAddress : Address
  fromPubkey : Bytes32
  toAddress : Address
  toPubkey : Bytes32
  seq : ℕ
  activatedAt : ℕ
  graceUntil : ℕ
  record : Bytes
  storedAt : ℕ
  accountedSize : ℕ

/-- The database. `lastCursor` is what `AUTOINCREMENT` counts from. -/
structure LoftStore (H : Type) where
  events : KeyedTable (EventRow.cursor (H := H))
  lastCursor : ℕ
  policies : KeyedTable PolicyRow.pubkey
  agents : KeyedTable AgentRow.address
  rotations : KeyedTable RotationRow.fromAddress
  stats : StorageStats

namespace LoftStore

variable {H : Type}

/-- A genuinely empty database after its migrations. -/
def fresh : LoftStore H := ⟨.empty, 0, .empty, .empty, .empty, ⟨0, 0, 0, 0⟩⟩

/-! ## Events -/

def decodePolicy (ctx : LoftContext) (blob : Bytes) : Except LoftError RecipientPolicy := do
  let policy ← okOr (ctx.json.readPolicy blob) .serialization
  (policy.verify ctx.prim none).mapError .core
  return policy

def policySeq (ctx : LoftContext) (store : LoftStore H) (recipient : Bytes32) :
    Except LoftError (Option UInt64) :=
  match store.policies.lookup recipient with
  | some row => do
    let policy ← decodePolicy ctx row.policy
    return some policy.seq
  | none => .ok none

variable (store : LoftStore H)

/-- The row and the counters of one more event. A cursor or a sum beyond a signed column is
far beyond what a database can hold, and the statement fails. -/
def appendEvent (id : H) (recipient : Bytes32)
    (storedAt expiresAt size : ℕ) (blob : Bytes) : Except LoftError (LoftStore H) := do
  let cursor := store.lastCursor + 1
  if cursor > i64Max ∨ store.stats.bytesUsed + size > i64Max then throw .storage
  let events ← okOr
    (store.events.insert ⟨cursor, id, recipient, storedAt, expiresAt, size, blob⟩) .storage
  return { store with
    events := events
    lastCursor := cursor
    stats := { store.stats with
      bytesUsed := store.stats.bytesUsed + size
      eventCount := store.stats.eventCount + 1 } }

def insert [DecidableEq H] (ctx : LoftContext) (store : LoftStore H) (wrap : Wrap) (id : H)
    (storedAt expiresAt capacityBytes : ℕ) (expected : Option UInt64) :
    Except LoftError (LoftStore H × Bool) := do
  let blob ← okOr (wrap.toJson ctx.json.attribution) .serialization
  let accounted := min (blob.length + eventStorageOverhead) (u64Limit - 1)
  if store.events.rows.any fun row => row.id = id then return (store, false)
  let actual ← store.policySeq ctx wrap.recipient
  if actual ≠ expected then throw .policyChanged
  let used ← okOr
    ((checkedAdd store.stats.bytesUsed store.stats.controlBytes).bind
      (checkedAdd · store.stats.controlReserved)) (.core .tooLarge)
  if accounted > capacityBytes - used then throw .atCapacity
  let storedAt ← Loft.toI64 storedAt
  let expiresAt ← Loft.toI64 expiresAt
  let size ← Loft.toI64 accounted
  let store ← store.appendEvent id wrap.recipient storedAt expiresAt size blob
  return (store, true)

/-- The trait's admission of one event. -/
def admitEvent [Sha256 H] [DecidableEq H] (ctx : LoftContext) (store : LoftStore H) (wrap : Wrap)
    (id : H) (storedAt expiresAt capacityBytes : ℕ) (expectedPolicySeq : Option UInt64) :
    Except LoftError (LoftStore H × Bool) := do
  (wrap.verifyPublic ctx.prim).mapError .core
  if id ≠ wrap.id H then throw (.core (.malformedEnvelope "event id mismatch"))
  store.insert ctx wrap id storedAt expiresAt capacityBytes expectedPolicySeq

/-- `SELECT cursor, blob … ORDER BY cursor ASC LIMIT`. -/
def page (recipient : Bytes32) (cursor limit : ℕ) : List (EventRow H) :=
  ((store.events.rows.filter fun row => row.recipient = recipient && cursor < row.cursor).mergeSort
    fun a b => a.cursor ≤ b.cursor).take limit

def fetch (ctx : LoftContext) (store : LoftStore H) (recipient : Bytes32) (cursor limit : ℕ) :
    Except LoftError (List (ℕ × Wrap)) := do
  let cursor ← Loft.toI64 cursor
  let limit ← Loft.toI64 limit
  (store.page recipient cursor limit).mapM fun row => do
    let wrap ← okOr (ctx.json.readWrap row.blob) .serialization
    return (row.cursor, wrap)

/-- `SELECT … WHERE expires_at <= ? ORDER BY expires_at LIMIT ?` along the index, where rows
of one time stand in the order of their cursors. -/
def expired (now batch : ℕ) : List (EventRow H) :=
  ((store.events.rows.filter fun row => row.expiresAt ≤ now).mergeSort
    fun a b => a.expiresAt ≤ b.expiresAt).take batch

def sweepExpired (now batch : ℕ) : Except LoftError (LoftStore H × ℕ) :=
  if batch = 0 then .ok (store, 0)
  else do
    let now ← Loft.toI64 now
    let batch ← Loft.toI64 batch
    let swept := store.expired now batch
    let count := swept.length
    let bytes := (swept.map EventRow.size).sum
    if bytes > i64Max then throw .storage
    if count = 0 then return (store, 0)
    let events := store.events.delete fun row => swept.any fun old => old.cursor = row.cursor
    let removed := store.events.rows.length - events.rows.length
    if removed ≠ count then throw (.core (.malformedEnvelope "retention count mismatch"))
    if ¬(bytes ≤ store.stats.bytesUsed ∧ count ≤ store.stats.eventCount) then
      throw (.core (.malformedEnvelope "storage counter mismatch"))
    let stats := { store.stats with
      bytesUsed := store.stats.bytesUsed - bytes
      eventCount := store.stats.eventCount - count }
    return ({ store with events := events, stats := stats }, removed)

/-! ## Policies -/

/-- The sequence of the policy that is replaced. -/
def lastPolicySeq (ctx : LoftContext) : Option PolicyRow → Except LoftError (Option UInt64)
  | some row => do
    let policy ← decodePolicy ctx row.policy
    return some policy.seq
  | none => .ok none

def putPolicy (ctx : LoftContext) (store : LoftStore H) (policy : RecipientPolicy)
    (capacityBytes unixSeconds : ℕ) : Except LoftError (LoftStore H) := do
  if policy.version ≠ recipientPolicyVersion then
    throw (.core (.malformedEnvelope "v3 policy required for write"))
  let blob := ctx.json.policy policy
  let newAccounted ← accountedSize blob.length 32
  let existing := store.policies.lookup policy.pubkey
  if existing.any fun row => row.policy = blob then return store
  let lastSeq ← lastPolicySeq ctx existing
  (policy.verify ctx.prim lastSeq).mapError .core
  let oldAccounted := (existing.map PolicyRow.accountedSize).getD 0
  let stats ← replaceControlCharge store.stats capacityBytes oldAccounted newAccounted 0 0
  let seq ← Loft.toI64 policy.seq.toNat
  let updatedAt ← Loft.toI64 unixSeconds
  let accounted ← Loft.toI64 newAccounted
  let row : PolicyRow := ⟨policy.pubkey, seq, blob, policy.version, updatedAt, accounted⟩
  return { store with policies := store.policies.put row, stats := stats }

variable {H : Type} [Sha256 H] [HashBytes H]

/-! ## Agent records -/

/-- What a stored record demands of the one that replaces it. -/
def ensureAdvances (ctx : LoftContext) (store : LoftStore H) (address : Address)
    (record : AgentRecord) (existing : AgentRow) : Except LoftError Unit := do
  if (store.rotations.lookup address).isSome then throw (.core .staleSequence)
  let prior ← okOr (ctx.json.readAgent existing.record) .serialization
  (prior.verify H ctx.prim address).mapError .core
  if prior.successorHash ≠ record.successorHash then throw (.core .successorMismatch)
  if record.seq ≤ prior.seq then throw (.core .staleSequence)

/-- `INSERT … ON CONFLICT(address) DO UPDATE … WHERE excluded.seq > agent_records.seq`: an
update leaves the reservation alone. -/
def upsertAgent (row : AgentRow) : Except LoftError (KeyedTable AgentRow.address) :=
  match store.agents.lookup row.address with
  | none => .ok (store.agents.put row)
  | some old =>
    if old.seq < row.seq then
      .ok (store.agents.put { row with rotationReservation := old.rotationReservation })
    else .error (.core .staleSequence)

def putAgentRecord (ctx : LoftContext) (store : LoftStore H) (address : Bytes)
    (record : AgentRecord) (capacityBytes unixSeconds : ℕ) :
    Except LoftError (LoftStore H) := do
  let address ← (Address.parse address).mapError .core
  if record.version ≠ agentRecordVersion then
    throw (.core (.malformedEnvelope "v2 agent record required for write"))
  (record.verify H ctx.prim address).mapError .core
  let blob := ctx.json.agent record
  let newAccounted ← accountedSize blob.length address.text.length
  let existing := store.agents.lookup address
  if existing.any fun row => row.record = blob then return store
  match existing with
  | some row => store.ensureAdvances ctx address record row
  | none => pure ()
  let oldAccounted := (existing.map AgentRow.accountedSize).getD 0
  let reservation := (existing.map AgentRow.rotationReservation).getD rotationStorageReservation
  let stats ← replaceControlCharge store.stats capacityBytes oldAccounted newAccounted
    (if existing.isSome then reservation else 0) reservation
  let seq ← Loft.toI64 record.seq.toNat
  let updatedAt ← Loft.toI64 unixSeconds
  let accounted ← Loft.toI64 newAccounted
  let reserved ← Loft.toI64 reservation
  let agents ← store.upsertAgent ⟨address, seq, blob, updatedAt, accounted, reserved⟩
  return { store with agents := agents, stats := stats }

/-! ## Rotation records -/

def rotationRecord (ctx : LoftContext) (store : LoftStore H) (address : Bytes) :
    Except LoftError (Option RotationRecord) := do
  let address ← (Address.parse address).mapError .core
  match store.rotations.lookup address, store.agents.lookup address with
  | some rotationRow, some agentRow =>
    let agent ← okOr (ctx.json.readAgent agentRow.record) .serialization
    (agent.verify H ctx.prim address).mapError .core
    let rotation ← okOr (ctx.json.readRotation rotationRow.record) .serialization
    (rotation.verifySourceAddress H ctx.prim address).mapError .core
    (rotation.verify H ctx.prim agent.successorHash agent.seq
      rotation.activatedAt.toNat).mapError .core
    return some rotation
  | _, _ => return none

/-- `INSERT INTO rotation_records` with the constraints of the table. -/
def insertRotation (row : RotationRow) :
    Except LoftError (KeyedTable RotationRow.fromAddress) := do
  if row.seq = 0 ∨ row.activatedAt = 0 ∨ row.graceUntil ≤ row.activatedAt ∨ row.storedAt = 0 then
    throw .storage
  if store.rotations.rows.any fun old => old.fromPubkey = row.fromPubkey then throw .storage
  okOr (store.rotations.insert row) .storage

def putRotationRecord (ctx : LoftContext) (store : LoftStore H) (address : Bytes)
    (record : RotationRecord) (nowSecs capacityBytes : ℕ) :
    Except LoftError (LoftStore H × Bool) := do
  let address ← (Address.parse address).mapError .core
  (record.verifySourceAddress H ctx.prim address).mapError .core
  let blob := record.toJson
  let target ← (record.targetAddress H ctx.prim).mapError .core
  let newAccounted ← accountedSize blob.length (address.text.length + target.text.length)
  match store.rotations.lookup address with
  | some existing =>
    if existing.record = blob then return (store, false)
    throw (.core .staleSequence)
  | none =>
    let agentRow ← okOr (store.agents.lookup address)
      (.core (.malformedEnvelope "rotation source record missing"))
    let reservation := agentRow.rotationReservation
    if reservation = 0 ∨ newAccounted > reservation then throw .atCapacity
    let agent ← okOr (ctx.json.readAgent agentRow.record) .serialization
    (agent.verify H ctx.prim address).mapError .core
    (record.verify H ctx.prim agent.successorHash agent.seq nowSecs).mapError .core
    let stats ← replaceControlCharge store.stats capacityBytes 0 newAccounted reservation 0
    let agents := store.agents.modify address (fun row => { row with rotationReservation := 0 })
      fun _ => rfl
    let seq ← Loft.toI64 record.seq.toNat
    let activatedAt ← Loft.toI64 record.activatedAt.toNat
    let graceUntil ← Loft.toI64 record.graceUntil.toNat
    let storedAt ← Loft.toI64 nowSecs
    let accounted ← Loft.toI64 newAccounted
    let rotations ← store.insertRotation ⟨address, record.fromPubkey, target, record.toPubkey,
      seq, activatedAt, graceUntil, blob, storedAt, accounted⟩
    return ({ store with agents := agents, rotations := rotations, stats := stats }, true)

end LoftStore

end Pigeonpost
