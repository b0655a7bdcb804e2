import Pigeonpost.Library.Greedy
import Pigeonpost.Library.Outcome
import Pigeonpost.Library.Text
import Pigeonpost.Program.Entry

/-! # Directory entries (`pigeonpost-directory/src/entry.rs`, `error.rs`) -/

namespace Pigeonpost

/-- The binary64 operations the directory applies to its measurements. -/
class F64 (F : Type) where
  zero : F
  one : F
  isFinite : F → Bool
  le : F → F → Bool
  /-- The quotient of two counters. -/
  ratio : ℕ → ℕ → F

/-- The variants the modelled functions return. A panic of the caller is one of them. -/
inductive DirectoryError where
  | malformed (message : String)
  | badSignature
  | keyMismatch
  | replay
  | notFound
  | unavailable
  | notReady
  | registryProof (message : String)
  | responseTooLarge
  | storage (message : String)
  | panicked
deriving DecidableEq

inductive LoftState where
  | pending
  | active
  | degraded
  | draining
  | removed
deriving DecidableEq

structure LoftPolicy where
  isOpen : Bool
  powFloor : UInt32
  maxEventBytes : UInt64
deriving DecidableEq

structure Health (F : Type) where
  uptime30d : F
  probeFailStreak : ℕ
  lastProbe : ℕ
deriving DecidableEq

structure DirectoryEntry (F : Type) where
  endpoint : Bytes
  pubkey : Bytes
  operator : Option Bytes
  capacityGb : UInt64
  retentionDays : UInt64
  policy : LoftPolicy
  sequence : UInt64
  utilization : F
  signature : Bytes
  state : LoftState
  health : Health F
  drainAfter : Option UInt64
  lastMutationSequence : UInt64
deriving DecidableEq

structure DrainAuthorization where
  endpoint : Bytes
  after : UInt64
  sequence : UInt64
  signature : Bytes

def Health.default {F : Type} [F64 F] : Health F := ⟨F64.zero, 0, 0⟩

/-! ## Keys and signatures -/

def parseHex (input : Bytes) (len : ℕ) : Option Bytes :=
  if input.length ≠ len * 2 then none else decodeHexPairs input

def payloadV1 (endpoint pubkey : Bytes) (operator : Option Bytes)
    (capacityGb retentionDays : UInt64) (policy : LoftPolicy) : Except DirectoryError Bytes :=
  (directoryAddClaimPayload endpoint pubkey operator capacityGb.toNat retentionDays
    policy.isOpen policy.powFloor policy.maxEventBytes 0).mapError fun _ => .panicked

def payloadV2 (endpoint pubkey : Bytes) (operator : Option Bytes)
    (capacityGb retentionDays : UInt64) (policy : LoftPolicy) (sequence : UInt64) :
    Except DirectoryError Bytes :=
  (directoryAddClaimPayload endpoint pubkey operator capacityGb.toNat retentionDays
    policy.isOpen policy.powFloor policy.maxEventBytes sequence).mapError fun _ => .panicked

def drainPayload (endpoint : Bytes) (after sequence : UInt64) : Except DirectoryError Bytes :=
  (directoryRemoveClaimPayload endpoint after sequence).mapError fun _ => .panicked

section Verify

variable {F : Type} (prim : Primitives)

/-- The key an entry is signed by, as its 32 bytes. -/
def DirectoryEntry.verify (entry : DirectoryEntry F) : Except DirectoryError Bytes := do
  let key ← okOr (parseHex entry.pubkey 32) (.malformed "pubkey must be 32 hex bytes")
  if !prim.verifyingKeyFromBytes key then throw (.malformed "pubkey is not a valid key")
  let signature ← okOr (parseHex entry.signature 64)
    (.malformed "signature must be 64 hex bytes")
  let payload ←
    if entry.sequence = 0 then
      payloadV1 entry.endpoint entry.pubkey entry.operator entry.capacityGb
        entry.retentionDays entry.policy
    else
      payloadV2 entry.endpoint entry.pubkey entry.operator entry.capacityGb
        entry.retentionDays entry.policy entry.sequence
  if !prim.verify key payload signature then throw .badSignature
  return key

/-- The mutation submitted to the registry log. -/
def DirectoryEntry.registryAddition (entry : DirectoryEntry F) :
    Except DirectoryError DirectoryAdd := do
  let _ ← entry.verify prim
  (DirectoryAdd.authenticated entry.endpoint entry.pubkey entry.operator entry.capacityGb
    entry.retentionDays entry.policy.isOpen entry.policy.powFloor entry.policy.maxEventBytes
    entry.sequence entry.signature).mapError .malformed

def DrainAuthorization.verify (authorization : DrainAuthorization) (key : Bytes) :
    Except DirectoryError Unit := do
  let signature ← okOr (parseHex authorization.signature 64)
    (.malformed "signature must be 64 hex bytes")
  let payload ← drainPayload authorization.endpoint authorization.after authorization.sequence
  if !prim.verify key payload signature then throw .badSignature

end Verify

def DrainAuthorization.registryRemoval (authorization : DrainAuthorization)
    (loftPubkey : Bytes) : DirectoryRemove :=
  .authenticated authorization.endpoint loftPubkey authorization.after authorization.sequence
    authorization.signature

/-! ## Choosing lofts (`pigeonpost-directory/src/selection.rs`, `entry.rs`) -/

def LoftState.selectable (state : LoftState) : Bool := state == .active

def hostOf (endpoint : Bytes) : Bytes :=
  let authority :=
    match splitOnceAt (ascii "://") endpoint with
    | none => endpoint
    | some (_, rest) => ((splitOnceAt (ascii "://") rest).map Prod.fst).getD rest
  (authority.takeWhile (· != 0x2f)).takeWhile (· != 0x3a)

variable {F : Type}

/-- The host of a loft, and the operator it names. -/
def DirectoryEntry.failureDomains (entry : DirectoryEntry F) : List Bytes :=
  (ascii "host:" ++ hostOf entry.endpoint) :: entry.operator.toList.map (ascii "operator:" ++ ·)

section Rendezvous

variable (sha256 : Bytes → Bytes32) (address : Bytes)

/-- An entry that may be selected, with the digest it is ranked by. -/
def rankEntry (entry : DirectoryEntry F) : Option (Bytes32 × DirectoryEntry F) := do
  guard entry.state.selectable
  let pubkey ← parseHex entry.pubkey 32
  return (sha256 (pubkey ++ address), entry)

def rankOrder : Bytes32 × DirectoryEntry F → Bytes32 × DirectoryEntry F → Ordering :=
  compareLex (compareOn fun ranked => ranked.1.toList)
    (compareLex (compareOn fun ranked => ranked.2.pubkey)
      (compareOn fun ranked => ranked.2.endpoint))

def rankPool (pool : List (DirectoryEntry F)) : List (Bytes32 × DirectoryEntry F) :=
  (pool.filterMap (rankEntry sha256 address)).mergeSort fun a b => (rankOrder a b).isLE

def chooseDiverse (count : ℕ) :
    List (Bytes32 × DirectoryEntry F) → List (Bytes32 × DirectoryEntry F) :=
  Greedy.choose count fun ranked => ranked.2.failureDomains

/-- The lofts at which an address can be looked up. -/
def rendezvous (pool : List (DirectoryEntry F)) (count : ℕ) : List (DirectoryEntry F) :=
  (chooseDiverse count (rankPool sha256 address pool)).map Prod.snd

end Rendezvous

end Pigeonpost
