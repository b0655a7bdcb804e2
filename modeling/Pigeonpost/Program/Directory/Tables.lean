import Pigeonpost.Library.KeyedTable
import Pigeonpost.Program.Checkpoint
import Pigeonpost.Program.Directory.Entry

/-! # Tables of the directory database (`pigeonpost-directory/src/directory.rs`)

An entry column holds the entry itself; JSON stays only where its bytes are compared
or measured. Integer columns hold natural numbers: every insertion goes through
`sql_u64` of an unsigned value. -/

namespace Pigeonpost

namespace Directory

def degradeAfterFailures : ℕ := 3

def promoteAfterSecs : ℕ := 24 * 60 * 60

def pendingExpireSecs : ℕ := 7 * 24 * 60 * 60

def removeAfterSecs : ℕ := 72 * 60 * 60

def probeRetentionSecs : ℕ := 30 * 24 * 60 * 60

def probeIntervalSecs : ℕ := 5 * 60

def maxPendingEntries : ℕ := 4096

def maxDirectoryEntries : ℕ := 512

def maxPublicEntries : ℕ := maxDirectoryEntries

def maxProbeCandidates : ℕ := 512

def maxMutationReservations : ℕ := maxPendingEntries

def maxCheckpointNoteBytes : ℕ := 64 * 1024

def maxLocalMutationBytes : ℕ := 64 * 1024

def reservationDomain : Bytes := ascii "pigeonpost/directory-mutation-reservation/v1"

end Directory

open Directory

/-! ## Rows -/

structure LoftRow (F : Type) where
  endpoint : Bytes
  entry : DirectoryEntry F
  state : LoftState
  firstSeen : ℕ
  lastProbe : ℕ
  failStreak : ℕ
  probesOk : ℕ
  probesTotal : ℕ
  degradedAt : Option ℕ
  drainAfter : Option ℕ
  mutationSequence : ℕ
  cleanSince : Option ℕ
  nextProbeAt : ℕ
  ownershipProven : Bool
deriving DecidableEq

structure PendingClaimRow (F : Type) where
  endpoint : Bytes
  loftPubkey : Bytes
  entry : DirectoryEntry F
  firstSeen : ℕ
  mutationSequence : ℕ
  nextProbeAt : ℕ
deriving DecidableEq

variable {F : Type}

def PendingClaimRow.key (row : PendingClaimRow F) : Bytes × Bytes :=
  (row.endpoint, row.loftPubkey)

inductive ReservationOperation where
  | add
  | drain
deriving DecidableEq

def ReservationOperation.name : ReservationOperation → Bytes
  | add => ascii "add"
  | drain => ascii "drain"

structure ReservationRow (H : Type) where
  reservationId : H
  endpoint : Bytes
  operation : ReservationOperation
  loftPubkey : Bytes
  mutationSequence : ℕ
  canonicalMutation : Bytes
  localRequest : Bytes
  reservedAt : ℕ
  capacitySlot : Bool
deriving DecidableEq

structure ProbeResult (F : Type) where
  endpoint : Bytes
  probedAt : ℕ
  reachable : Bool
  storedAndReturned : Bool
  utilization : F
  retentionAgeSecs : Option ℕ
  retentionOk : Option Bool
  detail : Option String
deriving DecidableEq

def ProbeResult.healthy (result : ProbeResult F) : Bool :=
  result.reachable && result.storedAndReturned && result.retentionOk != some false

structure ProbeRow (F : Type) where
  endpoint : Bytes
  probedAt : ℕ
  result : ProbeResult F
  healthy : Bool
deriving DecidableEq

structure RetentionCanaryRow where
  endpoint : Bytes
  recipientSeed : Bytes
  eventId : Bytes
  publishedAt : ℕ
  lastCheckedAt : ℕ
deriving DecidableEq

structure PersistedRegistryCheckpoint (H : Type) where
  version : UInt8
  origin : Bytes
  size : ℕ
  root : H
  note : Bytes
  witnessedAt : ℕ
deriving DecidableEq

/-- The database. The checkpoint is the one row of `directory_meta` that mutations touch. -/
structure Directory (H F : Type) where
  lofts : KeyedTable (LoftRow.endpoint (F := F))
  pendingClaims : KeyedTable (PendingClaimRow.key (F := F))
  reservations : KeyedTable (ReservationRow.endpoint (H := H))
  probes : List (ProbeRow F)
  retentionCanaries : KeyedTable RetentionCanaryRow.endpoint
  registryCheckpoint : Option (PersistedRegistryCheckpoint H)
deriving DecidableEq

def Directory.empty {H F : Type} : Directory H F :=
  ⟨.empty, .empty, .empty, [], .empty, none⟩

/-- The JSON texts whose bytes a reservation keeps. -/
structure DirectoryJson (F : Type) where
  addition : DirectoryAdd → Bytes
  removal : DirectoryRemove → Bytes
  entry : DirectoryEntry F → Bytes
  authorization : DrainAuthorization → Bytes

structure DirectoryContext (F : Type) where
  prim : Primitives
  json : DirectoryJson F

/-! ## Checks -/

def sqlU64 (value : ℕ) (field : String) : Except DirectoryError ℕ :=
  if value ≤ i64Max then .ok value else .error (.malformed (field ++ " is too large"))

def boundedMutationBytes (encoded : Bytes) : Except DirectoryError Bytes :=
  if encoded.isEmpty || encoded.length > maxLocalMutationBytes then
    .error (.malformed "canonical directory mutation is outside the supported bounds")
  else .ok encoded

def boundedLocalRequest (encoded : Bytes) : Except DirectoryError Bytes :=
  if encoded.isEmpty || encoded.length > maxLocalMutationBytes then
    .error (.malformed "directory mutation request is outside the supported bounds")
  else .ok encoded

def hostAddress : UrlHost → Option IpAddr
  | .ipv4 address => some (.v4 address)
  | .ipv6 address => some (.v6 address)
  | .domain _ => none

def IpAddr.isLoopback : IpAddr → Bool
  | .v4 address => address.isLoopback
  | .v6 address => address.isLoopback

/-- The origins a loft may be reached at. -/
def allowedDirectoryOrigin (endpoint : ParsedUrl) : Bool :=
  let address := endpoint.host.bind hostAddress
  if endpoint.scheme == ascii "http" then address.any IpAddr.isLoopback
  else if endpoint.scheme == ascii "https" then
    match address with
    | some value => isPublicNetworkAddress value
    | none => endpoint.host.any fun host =>
      match host with
      | .domain name => !isLocalhostName name
      | _ => false
  else false

def validateSubmission [F64 F] (prim : Primitives) (entry : DirectoryEntry F) :
    Except DirectoryError Unit := do
  if entry.endpoint.length > 2048 then throw (.malformed "endpoint is too long")
  let endpoint ← okOr (prim.parseUrl entry.endpoint)
    (.malformed "endpoint is not a valid URL")
  if !allowedDirectoryOrigin endpoint
      || endpoint.cannotBeABase
      || endpoint.host.isNone
      || !endpoint.username.isEmpty
      || endpoint.password.isSome
      || endpoint.port == some 0
      || endpoint.query.isSome
      || endpoint.fragment.isSome
      || !(endpoint.path == [] || endpoint.path == [0x2f]) then
    throw (.malformed
      "endpoint must be a public HTTPS origin or an exact numeric loopback HTTP origin")
  if entry.operator.any fun value => value.length > 256 then
    throw (.malformed "operator identity is too long")
  if entry.capacityGb = 0 ∨ entry.retentionDays = 0 then
    throw (.malformed "capacity and retention must be non-zero")
  if entry.policy.maxEventBytes = 0
      ∨ entry.policy.maxEventBytes.toNat > 2 * 1024 * 1024 then
    throw (.malformed "max_event_bytes is outside the supported range")
  if !F64.isFinite entry.utilization
      || !(F64.le F64.zero entry.utilization && F64.le entry.utilization F64.one) then
    throw (.malformed "utilization must be a finite value between zero and one")

section Hashes

variable {H : Type} [Sha256 H] [DecidableEq H]

def validatePersistedCheckpoint (checkpoint : PersistedRegistryCheckpoint H) :
    Except DirectoryError Unit :=
  if checkpoint.version ≠ 1
      ∨ checkpoint.origin.isEmpty
      ∨ checkpoint.origin.length > 256
      ∨ checkpoint.origin.any (fun b => isAsciiControl b || isAsciiWhitespace b)
      ∨ checkpoint.note.isEmpty
      ∨ checkpoint.note.length > Directory.maxCheckpointNoteBytes
      ∨ checkpoint.witnessedAt = 0
      ∨ (checkpoint.size = 0 ∧ checkpoint.root ≠ emptyRoot) then
    .error (.registryProof "persisted registry checkpoint is malformed")
  else .ok ()

def reservationId (operation : ReservationOperation) (canonicalMutation localRequest : Bytes) : H :=
  Sha256.digest
    [.bytes reservationDomain, .bytes (leBytes 8 operation.name.length),
      .bytes operation.name, .bytes (leBytes 8 canonicalMutation.length),
      .bytes canonicalMutation, .bytes (leBytes 8 localRequest.length), .bytes localRequest]

def validateReservationRow (row : ReservationRow H) : Except DirectoryError Unit := do
  if row.endpoint.isEmpty
      || row.endpoint.length > 2048
      || row.loftPubkey.length != 64
      || row.canonicalMutation.isEmpty
      || row.canonicalMutation.length > maxLocalMutationBytes
      || row.localRequest.isEmpty
      || row.localRequest.length > maxLocalMutationBytes then
    throw (.malformed "persisted directory mutation reservation is malformed")
  if row.reservationId ≠ reservationId row.operation row.canonicalMutation row.localRequest then
    throw (.malformed "persisted directory mutation reservation digest is invalid")

def ensureExactReservation (row : ReservationRow H) (id : H)
    (operation : ReservationOperation) (loftPubkey : Bytes) (mutationSequence : ℕ)
    (canonicalMutation localRequest : Bytes) : Except DirectoryError Unit := do
  validateReservationRow row
  if row.reservationId ≠ id
      ∨ row.operation ≠ operation
      ∨ row.loftPubkey ≠ loftPubkey
      ∨ row.mutationSequence ≠ mutationSequence
      ∨ row.canonicalMutation ≠ canonicalMutation
      ∨ row.localRequest ≠ localRequest then
    throw .replay

end Hashes

end Pigeonpost
