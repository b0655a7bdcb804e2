import Pigeonpost.Program.Checkpoint
import Pigeonpost.Program.Disclosure.Leaf

/-! # The restart state of the disclosure ledger (`pigeonpost-compliance/src/ledger.rs`)

The authenticated companion of a ledger file: what of the file is committed, and the
one leaf that may be on its way into it. -/

namespace Pigeonpost

def logMagic : Bytes := ascii "PPDISC" ++ [0, 0]

def stateMagic : Bytes := ascii "PPDSTAT" ++ [0]

def stateVersion : UInt8 := 2

def stateAuthDomain : Bytes := ascii "pigeonpost/disclosure-ledger-state-auth/v1"

def stateKeyDomain : Bytes := ascii "pigeonpost/disclosure-ledger-state-key/v1"

def maxLeafBytes : ℕ := 4 * 1024

def maxStateBytes : ℕ := 16 * 1024

def maxRecoveryTailBytes : ℕ := 4 + maxLeafBytes

def maxDisclosureLeaves : ℕ := 100000

/-- HMAC-SHA-256 of a message under a key. -/
structure Hmac where
  tag : Bytes → Bytes → Bytes32

variable {H : Type}

def deriveStateAuthenticationKey (H : Type) [Sha256 H] [HashBytes H] (secret : Bytes32) : Bytes :=
  HashBytes.toBytes (Sha256.digest [.bytes stateKeyDomain, .bytes secret.toList] : H)

def stateAuthenticationTag (hmac : Hmac) (key bytes : Bytes) : Bytes :=
  (hmac.tag key (stateAuthDomain ++ bytes)).toList

structure PersistedLedgerState (H : Type) where
  fileIdentity : H
  /-- The change time of the ledger file when this state was written. -/
  mutationMarker : Bytes
  generation : ℕ
  logLen : ℕ
  lastLeafHash : Option H
  pendingAppend : Option Bytes
  root : H

/-! ## Encoding -/

def pushOptionalHash [HashBytes H] : Option H → Bytes
  | none => 0 :: List.replicate 32 0
  | some hash => 1 :: HashBytes.toBytes hash

def pushOptionalStateBytes : Option Bytes → Except ComplianceError Bytes
  | none => .ok [0]
  | some bytes =>
    if bytes = [] ∨ bytes.length > maxLeafBytes then .error .limitExceeded
    else .ok (1 :: (beBytes 4 bytes.length ++ bytes))

namespace PersistedLedgerState

variable [HashBytes H]

def encodeAuthenticated (hmac : Hmac) (key : Bytes) (state : PersistedLedgerState H) :
    Except ComplianceError Bytes := do
  let pending ← pushOptionalStateBytes state.pendingAppend
  let payload := HashBytes.toBytes state.fileIdentity ++ state.mutationMarker
    ++ beBytes 8 state.generation ++ beBytes 8 state.logLen
    ++ pushOptionalHash state.lastLeafHash ++ pending ++ HashBytes.toBytes state.root
  let authenticated := stateMagic ++ [stateVersion] ++ beBytes 8 payload.length ++ payload
  let encoded := authenticated ++ stateAuthenticationTag hmac key authenticated
  if encoded.length > maxStateBytes then throw .limitExceeded
  return encoded

end PersistedLedgerState

/-! ## Decoding -/

/-- A reader over the rest of the payload. -/
abbrev StateReader := StateT Bytes (Except ComplianceError)

namespace StateReader

def take (length : ℕ) : StateReader Bytes := fun rest =>
  if rest.length < length then .error .storage else .ok (rest.take length, rest.drop length)

def u32 : StateReader ℕ := do return readBE (← take 4)

def u64 : StateReader ℕ := do return readBE (← take 8)

/-- A hash stands for its 32 bytes. -/
def array32 [HashBytes H] : StateReader H := do
  match HashBytes.ofBytes (← take 32) with
  | some hash => return hash
  | none => throw .storage

def optionalHash [HashBytes H] : StateReader (Option H) := do
  let present ← take 1
  let bytes ← take 32
  if present = [0] ∧ bytes = List.replicate 32 0 then return none
  else if present = [1] then
    match HashBytes.ofBytes bytes with
    | some hash => return some hash
    | none => throw .storage
  else throw .storage

def optionalBytes (maximum : ℕ) : StateReader (Option Bytes) := do
  let present ← take 1
  if present = [0] then return none
  else if present = [1] then
    let bytes ← take (← u32)
    if bytes = [] ∨ bytes.length > maximum then throw .limitExceeded
    return some bytes
  else throw .storage

end StateReader

namespace PersistedLedgerState

variable [HashBytes H]

/-- The fields of the payload, in order. -/
def readPayload : StateReader (PersistedLedgerState H) := do
  let fileIdentity ← StateReader.array32
  let mutationMarker ← StateReader.take 16
  let generation ← StateReader.u64
  let logLen ← StateReader.u64
  let lastLeafHash ← StateReader.optionalHash
  let pendingAppend ← StateReader.optionalBytes maxLeafBytes
  let root ← StateReader.array32
  return { fileIdentity, mutationMarker, generation, logLen, lastLeafHash, pendingAppend, root }

def statePrefixLen : ℕ := stateMagic.length + 1 + 8

def decodeAuthenticated (hmac : Hmac) (key bytes : Bytes) :
    Except ComplianceError (PersistedLedgerState H) := do
  if bytes.length < statePrefixLen + 32 ∨ bytes.length > maxStateBytes
      ∨ bytes.take stateMagic.length ≠ stateMagic
      ∨ bytes.getD stateMagic.length 0 ≠ stateVersion then
    throw .storage
  let payloadLen := readBE ((bytes.drop (stateMagic.length + 1)).take 8)
  let authenticatedLen := statePrefixLen + payloadLen
  if authenticatedLen + 32 ≠ bytes.length then throw .storage
  let authenticated := bytes.take authenticatedLen
  if stateAuthenticationTag hmac key authenticated ≠ bytes.drop authenticatedLen then
    throw .storage
  let (state, rest) ← readPayload.run (authenticated.drop statePrefixLen)
  if rest ≠ [] then throw .storage
  return state

/-! ## Validation against the ledger file -/

variable [Sha256 H] [DecidableEq H]

/-- What the tail behind the committed prefix may amount to. -/
def expectedRecoveryLen (state : PersistedLedgerState H) : Option ℕ :=
  state.pendingAppend.map fun encoded => 4 + encoded.length

def validate (state : PersistedLedgerState H) (fileLen : ℕ) (actualIdentity : H)
    (actualMarker : Bytes) : Except ComplianceError Unit := do
  if fileLen < state.logLen then throw .storage
  let recoveryTailLen := fileLen - state.logLen
  if state.fileIdentity ≠ actualIdentity
      ∨ state.generation > maxDisclosureLeaves
      ∨ state.logLen < logMagic.length
      ∨ state.logLen > fileLen
      ∨ recoveryTailLen > maxRecoveryTailBytes
      ∨ (state.expectedRecoveryLen = none ∧ recoveryTailLen ≠ 0)
      ∨ (∃ expected ∈ state.expectedRecoveryLen, recoveryTailLen > expected)
      ∨ (recoveryTailLen = 0 ∧ state.mutationMarker ≠ actualMarker) then
    throw .storage
  if state.pendingAppend.isSome ∧ state.generation ≥ maxDisclosureLeaves then
    throw .limitExceeded
  if state.generation = 0 then
    if state.logLen ≠ logMagic.length ∨ state.lastLeafHash.isSome ∨ state.root ≠ emptyRoot then
      throw .storage
  else
    if state.logLen = logMagic.length ∨ state.lastLeafHash.isNone then throw .storage
  match state.pendingAppend with
  | none => return ()
  | some encoded =>
    if encoded = [] ∨ encoded.length > maxLeafBytes then throw .limitExceeded

end PersistedLedgerState

end Pigeonpost
