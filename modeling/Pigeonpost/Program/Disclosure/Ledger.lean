import Mathlib.Data.Finset.Insert
import Pigeonpost.Library.ByteString
import Pigeonpost.Library.DurableFile
import Pigeonpost.Library.Outcome
import Pigeonpost.Library.Script
import Pigeonpost.Program.Disclosure.Approval
import Pigeonpost.Program.Disclosure.State

/-! # The disclosure ledger (`pigeonpost-compliance/src/ledger.rs`)

An append-only file of leaves with a restart state beside it: creating, opening with
the recovery of a torn tail, appending and reading. -/

namespace Pigeonpost

/-! ## The directory of a disclosure ledger

The ledger file, the state file beside it and the temporary file a new state is
written to, as far as the ledger (`pigeonpost-compliance/src/ledger.rs`) uses them:
appending, cutting, syncing and renaming. -/

/-- A file change time as the kernel reports it. -/
structure Ctime where
  sec : Int64
  nsec : Int64
deriving DecidableEq

structure LedgerFile where
  data : DurableFile UInt8
  ctime : Ctime
  /-- The change time of the last full sync. -/
  syncedCtime : Ctime
  dev : UInt64
  ino : UInt64

structure Disk where
  ledger : LedgerFile
  /-- The state file under its name. -/
  state : Option (DurableFile UInt8)
  /-- The state file under its name at the last sync of the directory. -/
  settledState : Option (DurableFile UInt8)
  temp : DurableFile UInt8
  /-- The times at which the changes of the ledger file happen. -/
  clock : ℕ → Ctime
  ticks : ℕ

namespace Disk

/-- The ledger file as a process reads it. -/
abbrev content (disk : Disk) : Bytes := disk.ledger.data.content

def touchLedger (disk : Disk) (data : DurableFile UInt8) : Disk :=
  { disk with
    ledger := { disk.ledger with data := data, ctime := disk.clock disk.ticks }
    ticks := disk.ticks + 1 }

def writeLedger (data : Bytes) (disk : Disk) : Disk :=
  disk.touchLedger (disk.ledger.data.write data)

def setLen (length : ℕ) (disk : Disk) : Disk :=
  disk.touchLedger (disk.ledger.data.setLen length 0)

/-- The content reaches the medium; the change time need not. -/
def syncData (disk : Disk) : Disk :=
  { disk with ledger := { disk.ledger with data := disk.ledger.data.sync } }

def syncAll (disk : Disk) : Disk :=
  { disk with
    ledger := { disk.ledger with
      data := disk.ledger.data.sync
      syncedCtime := disk.ledger.ctime } }

def createTemp (disk : Disk) : Disk := { disk with temp := .empty }

def writeTemp (data : Bytes) (disk : Disk) : Disk := { disk with temp := disk.temp.write data }

def syncTemp (disk : Disk) : Disk := { disk with temp := disk.temp.sync }

/-- The rename that publishes the temporary file as the state file. -/
def renameTemp (disk : Disk) : Disk := { disk with state := some disk.temp, temp := .empty }

def syncDirectory (disk : Disk) : Disk := { disk with settledState := disk.state }

/-- A file just created in a directory without a state file. -/
def created (dev ino : UInt64) (clock : ℕ → Ctime) : Disk where
  ledger := ⟨.empty, clock 0, clock 0, dev, ino⟩
  state := none
  settledState := none
  temp := .empty
  clock := clock
  ticks := 1

end Disk

/-! ## Crashes -/

/-- What ends a process: it alone stops, or the machine loses power. After a power loss
each file keeps some part of its unsynced changes, and the last rename and the last
change time may or may not have reached the medium. -/
inductive Crash where
  | kill
  | powerLoss (ledgerKept stateKept : ℕ) (renameKept ctimeKept : Bool)

def LedgerFile.powerLoss (file : LedgerFile) (kept : ℕ) (ctimeKept : Bool) : LedgerFile :=
  { file with
    data := file.data.powerLoss kept
    ctime := if ctimeKept then file.ctime else file.syncedCtime
    syncedCtime := if ctimeKept then file.ctime else file.syncedCtime }

def Disk.crash (disk : Disk) : Crash → Disk
  | .kill => disk
  | .powerLoss ledgerKept stateKept renameKept ctimeKept =>
    let state := (if renameKept then disk.state else disk.settledState).map
      (·.powerLoss stateKept)
    { disk with
      ledger := disk.ledger.powerLoss ledgerKept ctimeKept
      state := state
      settledState := state }

def ledgerIdentityDomain : Bytes := ascii "pigeonpost/disclosure-ledger-file/v1"

def maxLogBytes : ℕ := 512 * 1024 * 1024

def proofBlockLeaves : ℕ := 1024

def ledgerMutationMarker (ctime : Ctime) : Bytes :=
  beBytes 8 ctime.sec.toUInt64.toNat ++ beBytes 8 ctime.nsec.toUInt64.toNat

def ledgerFileIdentity {H : Type} [Sha256 H] (file : LedgerFile) : H :=
  Sha256.digest [.bytes ledgerIdentityDomain, .bytes (beBytes 8 file.dev.toNat),
    .bytes (beBytes 8 file.ino.toNat)]

/-! ## Indexes in memory -/

structure PendingIntent where
  timestampMs : UInt64
  sequence : ℕ

/-- What a process keeps of the leaves of its ledger. -/
structure LedgerIndex (H : Type) where
  leafOffsets : List ℕ
  frontier : MerkleFrontier H
  root : H
  /-- One hash for each complete proof block. -/
  proofBlockRoots : List H
  proofTailFrontier : MerkleFrontier H
  proofTailHashes : List H
  requestIds : Finset Bytes32
  incomplete : AList fun _ : Bytes32 => PendingIntent

def validateLeafSequence (requestIds : Finset Bytes32)
    (incomplete : AList fun _ : Bytes32 => PendingIntent) :
    DisclosureLeaf → Except ComplianceError Unit
  | .intent intent =>
    if intent.requestId ∈ requestIds then .error .stateConflict else .ok ()
  | .completion completion =>
    match incomplete.lookup completion.requestId with
    | none => .error .stateConflict
    | some intent =>
      if completion.timestampMs < intent.timestampMs then .error .stateConflict else .ok ()

namespace LedgerIndex

variable {H : Type} [Sha256 H]

def new : LedgerIndex H where
  leafOffsets := []
  frontier := .new
  root := emptyRoot
  proofBlockRoots := []
  proofTailFrontier := .new
  proofTailHashes := []
  requestIds := ∅
  incomplete := ∅

def leafCount (index : LedgerIndex H) : ℕ := index.frontier.size

def validateLeaf (index : LedgerIndex H) (leaf : DisclosureLeaf) : Except ComplianceError Unit :=
  validateLeafSequence index.requestIds index.incomplete leaf

def recordLeafState (index : LedgerIndex H) (leaf : DisclosureLeaf) (sequence : ℕ) :
    LedgerIndex H :=
  match leaf with
  | .intent intent =>
    { index with
      requestIds := insert intent.requestId index.requestIds
      incomplete := index.incomplete.insert intent.requestId ⟨intent.timestampMs, sequence⟩ }
  | .completion completion =>
    { index with incomplete := index.incomplete.erase completion.requestId }

def absorbHash (index : LedgerIndex H) (hash : H) : Except ComplianceError (LedgerIndex H) := do
  let (frontier, _) ← okOr (index.frontier.appendHash hash) .limitExceeded
  let root ← okOr frontier.root .storage
  let (tailFrontier, _) ← okOr (index.proofTailFrontier.appendHash hash) .limitExceeded
  let tailHashes := index.proofTailHashes ++ [hash]
  if tailHashes.length = proofBlockLeaves then
    let blockRoot ← okOr tailFrontier.root .storage
    return { index with
      frontier, root
      proofBlockRoots := index.proofBlockRoots ++ [blockRoot]
      proofTailFrontier := .new
      proofTailHashes := [] }
  else
    return { index with
      frontier, root
      proofTailFrontier := tailFrontier
      proofTailHashes := tailHashes }

/-- Takes in a leaf whose payload lies at `payloadOffset`. -/
def absorbLeaf (index : LedgerIndex H) (payloadOffset : ℕ) (encoded : Bytes)
    (leaf : DisclosureLeaf) : Except ComplianceError (LedgerIndex H) := do
  let sequence := index.leafCount
  let index := { index with leafOffsets := index.leafOffsets ++ [payloadOffset] }
  let index ← index.absorbHash (leafHash encoded)
  return index.recordLeafState leaf sequence

end LedgerIndex

/-! ## Reading records -/

def readExact (content : Bytes) (offset length : ℕ) : Except ComplianceError Bytes :=
  if ((content.drop offset).take length).length < length then .error .storage
  else .ok ((content.drop offset).take length)

def readRecordAt (content : Bytes) (payloadOffset maximumEnd : ℕ) :
    Except ComplianceError (Bytes × ℕ) := do
  if payloadOffset < 4 then throw .storage
  let lengthBytes ← readExact content (payloadOffset - 4) 4
  let length := readBE lengthBytes
  if length = 0 ∨ length > maxLeafBytes then throw .storage
  if payloadOffset + length > maximumEnd then throw .storage
  let encoded ← readExact content payloadOffset length
  return (encoded, payloadOffset + length)

theorem lt_of_readRecordAt {content encoded : Bytes} {payloadOffset maximumEnd recordEnd : ℕ}
    (h : readRecordAt content payloadOffset maximumEnd = .ok (encoded, recordEnd)) :
    payloadOffset < recordEnd := by
  simp only [readRecordAt, ok_iff, Prod.mk.injEq] at h
  omega

def ledgerRecord (encoded : Bytes) : Bytes := beBytes 4 encoded.length ++ encoded

section Ledger

variable {H : Type} [Sha256 H] [HashBytes H] [DecidableEq H]

/-- The loop that streams the committed prefix. Returns the indexes, the hash of the last
leaf and the offset it stopped at. -/
def streamRecords (content : Bytes) (logLen recordOffset : ℕ) (index : LedgerIndex H)
    (lastHash : Option H) : Except ComplianceError (LedgerIndex H × Option H × ℕ) :=
  if recordOffset < logLen then
    if index.leafCount ≥ maxDisclosureLeaves then .error .limitExceeded
    else
      match h : readRecordAt content (recordOffset + 4) logLen with
      | .error e => .error e
      | .ok (encoded, recordEnd) => do
        let leaf ← DisclosureLeaf.decode encoded
        index.validateLeaf leaf
        let index ← index.absorbLeaf (recordOffset + 4) encoded leaf
        streamRecords content logLen recordEnd index (some (leafHash encoded))
  else .ok (index, lastHash, recordOffset)
termination_by logLen - recordOffset
decreasing_by
  have := lt_of_readRecordAt h
  omega

/-! ## The ledger -/

structure LedgerStateStore (H : Type) where
  authenticationKey : Bytes
  fileIdentity : H
  mutationMarker : Bytes
  generation : ℕ
  logLen : ℕ
  lastLeafHash : Option H
  /-- The write-ahead record: the only bytes a crash tail may consist of. -/
  pendingAppend : Option Bytes

structure DisclosureLedger (H : Type) where
  index : LedgerIndex H
  store : LedgerStateStore H
  statePoisoned : Bool

/-- A fallible program over the ledger's directory. -/
abbrev LedgerIO := ExceptT ComplianceError (Script Disk)

abbrev readDisk : Script Disk Disk := Script.get

def writePrivateState (bytes : Bytes) : LedgerIO Unit := do
  if bytes.length > maxStateBytes then throw .limitExceeded
  Script.act Disk.createTemp
  Script.act Disk.syncDirectory
  Script.act (Disk.writeTemp bytes)
  Script.act Disk.syncTemp
  Script.act Disk.renameTemp
  Script.act Disk.syncDirectory

/-- A write may be cut short after any byte. -/
def writeAll : Bytes → Script Disk Unit
  | [] => pure ()
  | byte :: rest => do
    Script.act (Disk.writeLedger [byte])
    writeAll rest

namespace DisclosureLedger

def leafCount (ledger : DisclosureLedger H) : ℕ := ledger.index.leafCount

variable (ledger : DisclosureLedger H)

def poison : DisclosureLedger H :=
  { ledger with statePoisoned := true }

def persistedState : PersistedLedgerState H where
  fileIdentity := ledger.store.fileIdentity
  mutationMarker := ledger.store.mutationMarker
  generation := ledger.store.generation
  logLen := ledger.store.logLen
  lastLeafHash := ledger.store.lastLeafHash
  pendingAppend := ledger.store.pendingAppend
  root := ledger.index.root

def persistState (hmac : Hmac) (ledger : DisclosureLedger H) : LedgerIO Unit := do
  if ledger.store.generation ≠ ledger.leafCount ∨ ledger.store.logLen < logMagic.length
      ∨ ledger.store.lastLeafHash.isSome ≠ decide (ledger.leafCount ≠ 0) then
    throw .storage
  let encoded ← ledger.persistedState.encodeAuthenticated hmac ledger.store.authenticationKey
  writePrivateState encoded

def validateCurrentStoreFileStamp (disk : Disk) : Except ComplianceError Unit :=
  if disk.content.length ≠ ledger.store.logLen
      ∨ ledgerFileIdentity disk.ledger ≠ ledger.store.fileIdentity
      ∨ ledgerMutationMarker disk.ledger.ctime ≠ ledger.store.mutationMarker then
    .error .storage
  else .ok ()

def refreshStoreFileStamp (disk : Disk) : Except ComplianceError (DisclosureLedger H) :=
  if ledgerFileIdentity disk.ledger ≠ ledger.store.fileIdentity then .error .storage
  else .ok { ledger with
    store := { ledger.store with
      mutationMarker := ledgerMutationMarker disk.ledger.ctime
      logLen := disk.content.length } }

/-! ## Creating -/

def ofEmpty (authenticationKey : Bytes) (file : LedgerFile) : DisclosureLedger H where
  index := .new
  store := {
    authenticationKey
    fileIdentity := ledgerFileIdentity file
    mutationMarker := ledgerMutationMarker file.ctime
    generation := 0
    logLen := logMagic.length
    lastLeafHash := none
    pendingAppend := none }
  statePoisoned := false

def create (hmac : Hmac) (stateSecret : Bytes32) : LedgerIO (DisclosureLedger H) := do
  if (← readDisk).state.isSome then throw .storage
  writeAll logMagic
  Script.act Disk.syncAll
  let ledger := ofEmpty (deriveStateAuthenticationKey H stateSecret) (← readDisk).ledger
  ledger.persistState hmac
  return ledger

/-! ## Opening -/

def fromPersisted (content authenticationKey : Bytes) (state : PersistedLedgerState H) :
    Except ComplianceError (DisclosureLedger H) := do
  let (index, lastHash, recordOffset) ←
    streamRecords content state.logLen logMagic.length .new none
  if recordOffset ≠ state.logLen ∨ index.leafCount ≠ state.generation ∨ index.root ≠ state.root
      ∨ lastHash ≠ state.lastLeafHash then
    throw .storage
  match state.pendingAppend with
  | none => pure ()
  | some encoded =>
    let leaf ← DisclosureLeaf.decode encoded
    index.validateLeaf leaf
  return {
    index
    store := {
      authenticationKey
      fileIdentity := state.fileIdentity
      mutationMarker := state.mutationMarker
      generation := state.generation
      logLen := state.logLen
      lastLeafHash := state.lastLeafHash
      pendingAppend := state.pendingAppend }
    statePoisoned := false }

/-- Reads the state file, checks it against the ledger file and streams the committed
prefix. -/
def openCommitted (hmac : Hmac) (authenticationKey : Bytes) (disk : Disk) :
    Except ComplianceError (DisclosureLedger H) := do
  let fileLen := disk.content.length
  if fileLen > maxLogBytes then throw .limitExceeded
  let persisted ← match disk.state with
    | none => pure none
    | some file => do
      if file.content.length > maxStateBytes then throw .limitExceeded
      let state ← PersistedLedgerState.decodeAuthenticated hmac authenticationKey file.content
      pure (some state)
  if fileLen < logMagic.length then throw .invalidRequest
  if disk.content.take logMagic.length ≠ logMagic then throw .invalidRequest
  match persisted with
  | some state =>
    state.validate fileLen (ledgerFileIdentity disk.ledger)
      (ledgerMutationMarker disk.ledger.ctime)
    fromPersisted disk.content authenticationKey state
  | none => return ofEmpty authenticationKey disk.ledger

/-- The ledger once its complete pending record is taken in. -/
def absorbTail (encoded : Bytes) (fileLen : ℕ) :
    Except ComplianceError (DisclosureLedger H) := do
  let leaf ← DisclosureLeaf.decode encoded
  ledger.index.validateLeaf leaf
  if ledger.leafCount ≥ maxDisclosureLeaves then throw .limitExceeded
  let index ← ledger.index.absorbLeaf (ledger.store.logLen + 4) encoded leaf
  return { ledger with
    index
    store := { ledger.store with
      generation := index.leafCount
      logLen := fileLen
      lastLeafHash := some (leafHash encoded) } }

def clearPending : DisclosureLedger H :=
  { ledger with store := { ledger.store with pendingAppend := none } }

/-- Takes in a complete pending record behind the committed prefix, or cuts off a torn
one. Tells whether there was a pending record. -/
def recoverBoundedTail (fileLen : ℕ) :
    LedgerIO (Bool × DisclosureLedger H) := do
  let indexedLen := ledger.store.logLen
  if fileLen < indexedLen ∨ fileLen - indexedLen > maxRecoveryTailBytes then throw .storage
  match ledger.store.pendingAppend with
  | none =>
    if fileLen ≠ indexedLen then throw .storage
    return (false, ledger)
  | some encoded =>
    let remaining := fileLen - indexedLen
    if remaining > (ledgerRecord encoded).length then throw .storage
    let actual ← readExact (← readDisk).content indexedLen remaining
    if actual ≠ (ledgerRecord encoded).take remaining then throw .storage
    if remaining < (ledgerRecord encoded).length then
      Script.act (Disk.setLen indexedLen)
      Script.act Disk.syncAll
      return (true, ledger.clearPending)
    else
      let ledger ← ledger.absorbTail encoded fileLen
      return (true, ledger.clearPending)

/-- The last look at the file before an opened ledger is handed out. -/
def checkRecovered (recovered : Bool) (disk : Disk) : Except ComplianceError Unit :=
  if disk.content.length ≠ ledger.store.logLen
      ∨ ledgerFileIdentity disk.ledger ≠ ledger.store.fileIdentity
      ∨ (!recovered ∧ ledgerMutationMarker disk.ledger.ctime ≠ ledger.store.mutationMarker) then
    .error .storage
  else .ok ()

def openLedger (hmac : Hmac) (stateSecret : Bytes32) : LedgerIO (DisclosureLedger H) := do
  let disk ← readDisk
  let ledger ← openCommitted hmac (deriveStateAuthenticationKey H stateSecret) disk
  let (recovered, ledger) ← ledger.recoverBoundedTail disk.content.length
  let after ← readDisk
  ledger.checkRecovered recovered after
  if recovered ∨ disk.state.isNone then
    let ledger ← ledger.refreshStoreFileStamp after
    ledger.persistState hmac
    return ledger
  else return ledger

/-! ## Appending -/

/-- What an append computes before it touches the disk. -/
structure PreparedAppend (H : Type) where
  encoded : Bytes
  hash : H
  nextFrontier : MerkleFrontier H
  nextRoot : H
  nextTailFrontier : MerkleFrontier H
  completedBlockRoot : Option H

def prepareAppend (leaf : DisclosureLeaf) :
    Except ComplianceError (PreparedAppend H) := do
  if ledger.statePoisoned then throw .storage
  if ledger.leafCount ≥ maxDisclosureLeaves then throw .limitExceeded
  ledger.index.validateLeaf leaf
  let encoded ← leaf.encode
  if encoded.length > maxLeafBytes then throw .limitExceeded
  let hash := leafHash encoded
  let (nextFrontier, _) ← okOr (ledger.index.frontier.appendHash hash) .limitExceeded
  let nextRoot ← okOr nextFrontier.root .storage
  let (nextTailFrontier, _) ←
    okOr (ledger.index.proofTailFrontier.appendHash hash) .limitExceeded
  let completedBlockRoot ←
    if ledger.index.proofTailHashes.length + 1 = proofBlockLeaves then
      (okOr nextTailFrontier.root .storage).map some
    else pure none
  return { encoded, hash, nextFrontier, nextRoot, nextTailFrontier, completedBlockRoot }

def publishIndex (index : LedgerIndex H) (prepared : PreparedAppend H) (leaf : DisclosureLeaf)
    (payloadOffset : ℕ) : LedgerIndex H :=
  let appended : LedgerIndex H := { index with
    leafOffsets := index.leafOffsets ++ [payloadOffset]
    frontier := prepared.nextFrontier
    root := prepared.nextRoot }
  let blocked : LedgerIndex H :=
    match prepared.completedBlockRoot with
    | some blockRoot => { appended with
      proofBlockRoots := index.proofBlockRoots ++ [blockRoot]
      proofTailFrontier := .new
      proofTailHashes := [] }
    | none => { appended with
      proofTailFrontier := prepared.nextTailFrontier
      proofTailHashes := index.proofTailHashes ++ [prepared.hash] }
  blocked.recordLeafState leaf index.leafCount

/-- Writes one record at the end of the file. Returns where it starts and ends. -/
def appendRecord (encoded : Bytes) : LedgerIO (ℕ × ℕ) := do
  let recordOffset := (← readDisk).content.length
  let nextLen := recordOffset + 4 + encoded.length
  if nextLen > maxLogBytes then throw .limitExceeded
  writeAll (beBytes 4 encoded.length)
  writeAll encoded
  Script.act Disk.syncData
  return (recordOffset, nextLen)

def published (prepared : PreparedAppend H) (leaf : DisclosureLeaf)
    (recordOffset nextLen : ℕ) : DisclosureLedger H :=
  let index := publishIndex ledger.index prepared leaf (recordOffset + 4)
  { ledger with
    index
    store := { ledger.store with
      generation := index.leafCount
      logLen := nextLen
      lastLeafHash := some prepared.hash
      pendingAppend := none } }

def refreshAndPersist (hmac : Hmac) (ledger : DisclosureLedger H) :
    LedgerIO (DisclosureLedger H) := do
  let ledger ← ledger.refreshStoreFileStamp (← readDisk)
  ledger.persistState hmac
  return ledger

/-- An append returns the ledger also when it fails, since a failure can poison it. -/
def append (hmac : Hmac) (ledger : DisclosureLedger H) (leaf : DisclosureLeaf) :
    Script Disk (Except ComplianceError Unit × DisclosureLedger H) := do
  match ledger.prepareAppend leaf with
  | .error e => return (.error e, ledger)
  | .ok prepared =>
    match ledger.validateCurrentStoreFileStamp (← readDisk) with
    | .error _ => return (.error .storage, ledger.poison)
    | .ok () =>
      let ledger := { ledger with
        store := { ledger.store with pendingAppend := some prepared.encoded } }
      match ← (ledger.persistState hmac).run with
      | .error _ => return (.error .storage, ledger.poison)
      | .ok () =>
        match ← (appendRecord prepared.encoded).run with
        | .error e => return (.error e, ledger.poison)
        | .ok (recordOffset, nextLen) =>
          let ledger := ledger.published prepared leaf recordOffset nextLen
          match ← (ledger.refreshAndPersist hmac).run with
          | .error _ => return (.error .storage, ledger.poison)
          | .ok ledger => return (.ok (), ledger)

/-! ## Reading -/

def encodedLeaf (disk : Disk) (index : ℕ) : Except ComplianceError (Option Bytes) :=
  if index ≥ ledger.leafCount then .ok none
  else do
    let payloadOffset ← okOr ledger.index.leafOffsets[index]? .storage
    let lengthBytes ← readExact disk.content (payloadOffset - 4) 4
    let length := readBE lengthBytes
    if length = 0 ∨ length > maxLeafBytes then throw .storage
    let encoded ← readExact disk.content payloadOffset length
    return some encoded

end DisclosureLedger

end Ledger

/-! ## Executing a disclosure

A custody operation runs between an intent leaf and a completion leaf. -/

def genericFailureDomain : Bytes := ascii "pigeonpost/disclosure-operation-failed/v1"

structure DisclosureOutput (T : Type) where
  value : T
  recordCount : UInt32
  resultCommitment : Bytes32

abbrev DisclosureOperation (T : Type) : Type :=
  AuthorizedDisclosure → Except ComplianceError (DisclosureOutput T)

/-- An operation that was started, with the request it was started for and the directory of
the ledger at that time. -/
structure PerformedDisclosure where
  authorization : AuthorizedDisclosure
  request : DisclosureRequest
  startedAtMs : UInt64
  disk : Disk

/-- The directory of the ledger, and the operations started so far. -/
structure Custody where
  disk : Disk
  performed : List PerformedDisclosure

namespace Custody

def onDisk {α : Type} (x : Script Disk α) : Script Custody α :=
  x.focus Custody.disk fun disk custody => { custody with disk }

def perform (authorization : AuthorizedDisclosure) (request : DisclosureRequest)
    (startedAtMs : UInt64) (custody : Custody) : Custody :=
  { custody with
    performed := custody.performed ++ [⟨authorization, request, startedAtMs, custody.disk⟩] }

end Custody

namespace DisclosureLedger

variable {H T : Type} [Sha256 H] [HashBytes H] [DecidableEq H] (prim : CryptoPrimitives)

def failureLeaf (requestId : Bytes32) (timestampMs : UInt64) : DisclosureLeaf :=
  .completion {
    requestId, timestampMs
    status := .failed
    recordCount := 0
    resultCommitment := prim.sha256 genericFailureDomain }

def appendFailure (hmac : Hmac) (ledger : DisclosureLedger H)
    (requestId : Bytes32) (timestampMs : UInt64) :
    Script Disk (Except ComplianceError Unit × DisclosureLedger H) :=
  ledger.append hmac (failureLeaf prim requestId timestampMs)

/-- Closes an intent whose execution was interrupted. -/
def closeIncompleteFailure (hmac : Hmac) (ledger : DisclosureLedger H)
    (requestId : Bytes32) (timestampMs : UInt64) :
    Script Disk (Except ComplianceError Unit × DisclosureLedger H) :=
  match ledger.index.incomplete.lookup requestId with
  | none => pure (.error .stateConflict, ledger)
  | some _ => ledger.appendFailure prim hmac requestId timestampMs

/-- Everything after the operation returned. -/
def complete (hmac : Hmac) (ledger : DisclosureLedger H)
    (requestId : Bytes32) (startedAtMs : UInt64) (completionClock : Except ComplianceError UInt64)
    (result : Except ComplianceError (DisclosureOutput T)) :
    Script Disk (Except ComplianceError T × DisclosureLedger H) :=
  match completionClock with
  | .error e => pure (.error e, ledger)
  | .ok completedAtMs =>
    if completedAtMs < startedAtMs then pure (.error .invalidRequest, ledger)
    else
      match result with
      | .error error => do
        let (appended, ledger) ← ledger.appendFailure prim hmac requestId completedAtMs
        return (appended.bind fun _ => .error error, ledger)
      | .ok output =>
        if output.resultCommitment ≠ zero32 then do
          let (appended, ledger) ← ledger.append hmac (.completion {
            requestId
            timestampMs := completedAtMs
            status := .succeeded
            recordCount := output.recordCount
            resultCommitment := output.resultCommitment })
          return (appended.map fun _ => output.value, ledger)
        else do
          let (appended, ledger) ← ledger.appendFailure prim hmac requestId completedAtMs
          return (appended.bind fun _ => .error .invalidRequest, ledger)

structure Executed (H T : Type) where
  answer : Except ComplianceError T
  ledger : DisclosureLedger H
  request : DisclosureRequest

/-- The operation starts when its intent leaf is appended and the request consumed. -/
def execute (hmac : Hmac) (ledger : DisclosureLedger H)
    (request : DisclosureRequest) (startedAtMs : UInt64)
    (completionClock : Except ComplianceError UInt64) (operation : DisclosureOperation T) :
    Script Custody (Executed H T) :=
  match request.ensureAuthorized startedAtMs with
  | (.error e, request) => pure ⟨.error e, ledger, request⟩
  | (.ok (), request) => do
    match ← Custody.onDisk (ledger.append hmac (.intent (request.intent startedAtMs))) with
    | (.error e, ledger) => return ⟨.error e, ledger, request⟩
    | (.ok (), ledger) =>
      match request.consume startedAtMs with
      | (.error e, request) => return ⟨.error e, ledger, request⟩
      | (.ok authorization, request) =>
        Script.act (Custody.perform authorization request startedAtMs)
        let (answer, ledger) ← Custody.onDisk (ledger.complete prim hmac
          authorization.requestId startedAtMs completionClock (operation authorization))
        return ⟨answer, ledger, request⟩

end DisclosureLedger

end Pigeonpost
