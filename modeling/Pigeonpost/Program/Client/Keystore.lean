import Pigeonpost.Library.Script
import Pigeonpost.Program.Record
import Mathlib.Data.List.AList
import Mathlib.Data.List.Sort

/-! # Key custody (`pigeonpost-client/src/keystore.rs`)

The key files of an agent, as the functions that load, create, rotate and retire its keys
read and write them. Every change of a file or a name is one action, and a process may
stop before any of them. -/

namespace Pigeonpost.Keystore

/-! ## Files -/

structure RotationJournal where
  record : RotationRecord
  sourceRecord : AgentRecord
  targetRecord : AgentRecord
  lofts : List Bytes
deriving DecidableEq

/-- What a file holds: a 32-byte secret, a journal as JSON, or less than was to be written. -/
inductive Content where
  | secret (seed : Bytes32)
  | journal (journal : RotationJournal)
  | incomplete
deriving DecidableEq

/-- The names of `KeyPaths`, those in the directory of the retired keys, and those of the
temporary files. A retired key's files are named after its public key. -/
inductive Path where
  | operating
  | successor
  | tokenSecret
  | legacySuccessor
  | rotationJournal
  | stagedSuccessor
  | defaultSuccessor
  /-- `.retired-metadata.pending.replace`. -/
  | retiredStaging
  | retiredKey (stem : Bytes32)
  | retiredMetadata (stem : Bytes32)
  /-- `.{filename}.{pid}.{sequence}.tmp` beside its target. -/
  | temporary (target : Path) (pid sequence : ℕ)
  /-- `.{filename}.{pid}.{sequence}.replace` beside its target. -/
  | replacement (target : Path) (pid sequence : ℕ)
deriving DecidableEq

namespace Path

def inRetired : Path → Bool
  | retiredKey _ => true
  | retiredMetadata _ => true
  | temporary target _ _ => target.inRetired
  | replacement target _ _ => target.inRetired
  | _ => false

/-- The stem of a name that ends in `.key` or `.json`. -/
def stem : Path → Option Bytes32
  | retiredKey stem => some stem
  | retiredMetadata stem => some stem
  | _ => none

end Path

structure Disk where
  files : AList fun _ : Path => Content

namespace Disk

def empty : Disk := ⟨∅⟩

def file (disk : Disk) (path : Path) : Option Content := disk.files.lookup path

def write (disk : Disk) (path : Path) (content : Content) : Disk :=
  ⟨disk.files.insert path content⟩

def remove (disk : Disk) (path : Path) : Disk := ⟨disk.files.erase path⟩

def rename (disk : Disk) (source destination : Path) : Disk :=
  match disk.file source with
  | none => disk
  | some content => (disk.remove source).write destination content

/-- The names in the directory of the retired keys. -/
def retiredEntries (disk : Disk) : List Path := disk.files.keys.filter Path.inRetired

/-- The stems in that directory, in their order. -/
def stems (disk : Disk) : List Bytes32 :=
  (disk.retiredEntries.filterMap Path.stem).dedup.insertionSort fun a b => a.toList ≤ b.toList

end Disk

/-! ## Processes -/

/-- The disk and the process that works on it. -/
structure Machine where
  disk : Disk
  pid : ℕ
  tempSequence : ℕ
  replaceSequence : ℕ

namespace Machine

abbrev file (m : Machine) : Path → Option Content := m.disk.file

def onDisk (f : Disk → Disk) (m : Machine) : Machine := { m with disk := f m.disk }

def nextTemp (m : Machine) : Machine := { m with tempSequence := m.tempSequence + 1 }

def nextReplace (m : Machine) : Machine := { m with replaceSequence := m.replaceSequence + 1 }

end Machine

inductive KeystoreError where
  | config (message : String)
  | recoveryMigration
  | notFound (path : Path)
  | alreadyExists (path : Path)
  | notAKey (path : Path)
  | json (path : Path)
  | core (error : CoreError)
deriving DecidableEq

abbrev Program := ExceptT KeystoreError (Script Machine)

def readMachine : Program Machine := liftM (Script.get : Script Machine Machine)

def onDisk (f : Disk → Disk) : Program Unit := liftM (Script.act (Machine.onDisk f))

/-! ## What the functions rely on -/

/-- The keys of an agent and the configuration of its home. -/
structure Env where
  prim : Primitives
  /-- The verifying key of a seed. -/
  publicKey : Bytes32 → Bytes32
  sign : Bytes32 → Bytes → Bytes64
  /-- The number of bytes of a journal as JSON. -/
  journalBytes : RotationJournal → ℕ
  /-- Whether the recovery directory is another than the default one. -/
  customRecovery : Bool

def maxJournalBytes : ℕ := 1024 * 1024

def maxLiveRetiredIdentities : ℕ := 32

def maxRetiredDirectoryEntries : ℕ := maxLiveRetiredIdentities * 2

/-! ## File operations -/

def pathIsPresent (path : Path) : Program Bool := do
  let m ← readMachine
  return (m.file path).isSome

def validateKeyFile (path : Path) : Program Unit := do
  let m ← readMachine
  if (m.file path).isNone then throw (.notFound path)

def readSecret (path : Path) : Program Bytes32 := do
  let m ← readMachine
  match m.file path with
  | none => throw (.notFound path)
  | some (.secret seed) => return seed
  | some _ => throw (.notAKey path)

def readJournal (path : Path) : Program RotationJournal := do
  let m ← readMachine
  match m.file path with
  | none => throw (.notFound path)
  | some (.journal journal) => return journal
  | some _ => throw (.json path)

def removePrivateFile (path : Path) : Program Unit := do
  validateKeyFile path
  onDisk fun disk => disk.remove path

/-- The file exists before its content is complete. -/
def writeNewFile (path : Path) (content : Content) : Program Unit := do
  if ← pathIsPresent path then throw (.alreadyExists path)
  onDisk fun disk => disk.write path .incomplete
  onDisk fun disk => disk.write path content

def publishNoReplace (temporary path : Path) : Program Bool := do
  validateKeyFile temporary
  if ← pathIsPresent path then
    removePrivateFile temporary
    return false
  onDisk fun disk => disk.rename temporary path
  return true

def publishReplacement (temporary path : Path) : Program Unit := do
  validateKeyFile temporary
  onDisk fun disk => disk.rename temporary path

def createSecretOnce (path : Path) (secret : Bytes32) : Program Bool := do
  let m ← readMachine
  liftM (Script.act Machine.nextTemp)
  let temporary := Path.temporary path m.pid m.tempSequence
  writeNewFile temporary (.secret secret)
  let published ← publishNoReplace temporary path
  validateKeyFile path
  return published

def temporaryPath (path : Path) : Program Path := do
  let m ← readMachine
  liftM (Script.act Machine.nextReplace)
  return .replacement path m.pid m.replaceSequence

def replaceSecret (path : Path) (secret : Bytes32) : Program Unit := do
  let temporary ← temporaryPath path
  writeNewFile temporary (.secret secret)
  publishReplacement temporary path

section Journals

variable (env : Env)

def writeJsonReplacing (path : Path) (journal : RotationJournal) : Program Unit := do
  if env.journalBytes journal > maxJournalBytes then
    throw (.config "rotation journal is too large")
  let temporary ← temporaryPath path
  writeNewFile temporary (.journal journal)
  publishReplacement temporary path

def prepareRetiredMetadataStaging : Program Path := do
  if ← pathIsPresent .retiredStaging then removePrivateFile .retiredStaging
  return .retiredStaging

def writeRetiredMetadataReplacing (path : Path) (journal : RotationJournal) : Program Unit := do
  if env.journalBytes journal > maxJournalBytes then
    throw (.config "rotation journal is too large")
  let temporary ← prepareRetiredMetadataStaging
  writeNewFile temporary (.journal journal)
  publishReplacement temporary path

end Journals

/-! ## Identities -/

structure RetiredIdentity where
  identity : Bytes32
  journal : RotationJournal
deriving DecidableEq

structure LoadedKeys where
  identity : Bytes32
  successor : Bytes32
  tokenSecret : Bytes32
  freshlyCreated : Bool
  retired : List RetiredIdentity
deriving DecidableEq

structure RotationOutcome where
  identity : Bytes32
  successor : Bytes32
  journal : RotationJournal
deriving DecidableEq

section Identities

variable (H : Type) [Sha256 H] [HashBytes H] (env : Env)

/-- `SuccessorCommitment::for_key`. -/
def commitment (pubkey : Bytes32) : Bytes32 := Address.keyDigest H pubkey

def legacyTokenSecret (identity : Bytes32) : Bytes32 :=
  bytes32 (HashBytes.toBytes
    (Sha256.digest [.bytes (ascii "pigeonpost/token-secret/v1" ++ identity.toList)] : H))

/-! ### Journals -/

def validateJournal (journal : RotationJournal) : Except CoreError Unit := do
  verifyingKey env.prim journal.record.fromPubkey
  let source := Address.fromPubkey H journal.record.fromPubkey
  journal.sourceRecord.verify H env.prim source
  journal.record.verifySourceAddress H env.prim source
  journal.record.verify H env.prim journal.sourceRecord.successorHash journal.sourceRecord.seq
    journal.record.activatedAt.toNat
  let target ← journal.record.targetAddress H env.prim
  journal.targetRecord.verify H env.prim target
  if journal.targetRecord.pubkey ≠ journal.record.toPubkey
      ∨ journal.targetRecord.successorHash ≠ journal.record.nextSuccessorHash
      ∨ journal.targetRecord.seq ≠ journal.record.seq then
    throw .successorMismatch

def core {α : Type} (result : Except CoreError α) : Program α :=
  liftM (result.mapError KeystoreError.core)

/-- `RotationRecord::new`. -/
def newRotationRecord (outgoing incoming next : Bytes32) (seq activatedAt : UInt64) :
    Except CoreError RotationRecord := do
  let graceUntil := activatedAt.toNat + rotationGraceSecs
  if graceUntil ≥ 2 ^ 64 then throw (.malformedEnvelope "invalid rotation timing")
  if activatedAt = 0 then throw (.malformedEnvelope "invalid rotation timing")
  let unsigned : RotationRecord :=
    { version := rotationRecordVersion
      fromPubkey := env.publicKey outgoing
      toPubkey := env.publicKey incoming
      nextSuccessorHash := next
      seq := seq
      activatedAt := activatedAt
      graceUntil := UInt64.ofNat graceUntil
      outgoingSignature := Vector.replicate 64 0
      incomingSignature := Vector.replicate 64 0 }
  let body := rotationBody unsigned
  return { unsigned with
    outgoingSignature :=
      env.sign outgoing (rotationSigningPayload sigDomainRotationOutgoing body)
    incomingSignature :=
      env.sign incoming (rotationSigningPayload sigDomainRotationIncoming body) }

/-- `AgentRecord::with_policy`. -/
def recordWithPolicy (identity next : Bytes32) (seq : UInt64) (lofts : List Bytes)
    (powMin : UInt32) (requirement : Option AttributionRequirement) : AgentRecord :=
  let unsigned : AgentRecord :=
    { version := agentRecordVersion
      pubkey := env.publicKey identity
      successorHash := next
      seq := seq
      lofts := lofts
      powMin := powMin
      attributionRequirement := requirement
      signature := Vector.replicate 64 0 }
  { unsigned with signature := env.sign identity (recordPayloadV2 unsigned) }

/-! ### Retired identities -/

/-- A stem of the directory, and whether its key and its metadata are there. -/
structure Pair where
  stem : Bytes32
  key : Bool
  metadata : Bool

def pairs (disk : Disk) : List Pair :=
  disk.stems.map fun stem =>
    ⟨stem, (disk.file (.retiredKey stem)).isSome, (disk.file (.retiredMetadata stem)).isSome⟩

/-- The loop over the pairs: the retired identities and the number of live ones. -/
def visitPairs (now : UInt64) (allowedIncomplete : Option Bytes32) :
    List Pair → Program (List RetiredIdentity × ℕ)
  | [] => return ([], 0)
  | pair :: rest => do
    if !pair.metadata ∧ pair.key ∧ allowedIncomplete = some pair.stem then
      validateKeyFile (.retiredKey pair.stem)
      visitPairs now allowedIncomplete rest
    else
      if !pair.key ∨ !pair.metadata then
        throw (.config "retired identity key and journal must form an exact pair")
      let journal ← readJournal (.retiredMetadata pair.stem)
      core (validateJournal H env journal)
      if journal.record.fromPubkey ≠ pair.stem then
        throw (.config "retired identity filename does not match its rotation record")
      validateKeyFile (.retiredKey pair.stem)
      if now ≥ journal.record.graceUntil then
        removePrivateFile (.retiredKey pair.stem)
        removePrivateFile (.retiredMetadata pair.stem)
        visitPairs now allowedIncomplete rest
      else if now < journal.record.activatedAt then
        let (retired, live) ← visitPairs now allowedIncomplete rest
        return (retired, live + 1)
      else
        let identity ← readSecret (.retiredKey pair.stem)
        if env.publicKey identity ≠ journal.record.fromPubkey then
          throw (.config "retired key does not match its rotation record")
        let (retired, live) ← visitPairs now allowedIncomplete rest
        return (⟨identity, journal⟩ :: retired, live + 1)

def retiredIdentitiesAndLiveCountLocked (now : UInt64) (allowedIncomplete : Option Bytes32) :
    Program (List RetiredIdentity × ℕ) := do
  let m ← readMachine
  if m.disk.retiredEntries.length > maxRetiredDirectoryEntries then
    throw (.config "retired identity directory exceeds its 32-identity bound")
  if !m.disk.retiredEntries.all fun path => path.stem.isSome then
    throw (.config "retired identity directory contains an unexpected entry")
  let (retired, live) ← visitPairs H env now allowedIncomplete (pairs m.disk)
  if live > maxLiveRetiredIdentities then
    throw (.config "retired identity directory exceeds its 32-identity bound")
  return (retired, live)

def retiredIdentitiesLocked (now : UInt64) : Program (List RetiredIdentity) := do
  let (retired, _) ← retiredIdentitiesAndLiveCountLocked H env now none
  return retired

/-! ### Rotation -/

def readIfPresent (path : Path) : Program (Option Bytes32) := do
  if ← pathIsPresent path then
    let seed ← readSecret path
    return some seed
  else return none

/-- The key that a rotation retires, under its retired name from now on. -/
def retainOutgoing (journal : RotationJournal) : Program Bytes32 := do
  if ← pathIsPresent (.retiredKey journal.record.fromPubkey) then
    readSecret (.retiredKey journal.record.fromPubkey)
  else
    let candidate ← readSecret .operating
    if env.publicKey candidate ≠ journal.record.fromPubkey then
      throw (.config "rotation recovery cannot find the outgoing key")
    let _ ← createSecretOnce (.retiredKey journal.record.fromPubkey) candidate
    return candidate

def promoteIncoming (journal : RotationJournal) : Program Unit := do
  let operating ← readIfPresent .operating
  if operating.map env.publicKey ≠ some journal.record.toPubkey then
    let incoming ← readSecret .successor
    if env.publicKey incoming ≠ journal.record.toPubkey then
      throw (.config "rotation recovery cannot find the incoming key")
    replaceSecret .operating incoming

def promoteNext (journal : RotationJournal) : Program Unit := do
  let successor ← readIfPresent .successor
  if successor.map (commitment H ∘ env.publicKey) ≠ some journal.record.nextSuccessorHash then
    let next ← readSecret .stagedSuccessor
    if commitment H (env.publicKey next) ≠ journal.record.nextSuccessorHash then
      throw (.config "rotation recovery cannot find the next successor key")
    replaceSecret .successor next

def completeRotationLocked (journal : RotationJournal) : Program Unit := do
  core (validateJournal H env journal)
  let stem := journal.record.fromPubkey
  let (_, live) ← retiredIdentitiesAndLiveCountLocked H env journal.record.activatedAt (some stem)
  let keyPresent ← pathIsPresent (.retiredKey stem)
  let metadataPresent ← pathIsPresent (.retiredMetadata stem)
  if !keyPresent ∧ !metadataPresent ∧ live ≥ maxLiveRetiredIdentities then
    throw (.config "at most 32 identities may remain in rotation grace")
  let _ ← prepareRetiredMetadataStaging
  let outgoing ← retainOutgoing env journal
  if env.publicKey outgoing ≠ stem then
    throw (.config "retired key does not match its rotation record")
  promoteIncoming env journal
  promoteNext H env journal
  writeRetiredMetadataReplacing env (.retiredMetadata stem) journal
  if ← pathIsPresent .stagedSuccessor then removePrivateFile .stagedSuccessor
  removePrivateFile .rotationJournal

/-- What a crash before the journal leaves is discarded. -/
def discardStaged : Program Unit := do
  if ← pathIsPresent .stagedSuccessor then
    validateKeyFile .stagedSuccessor
    removePrivateFile .stagedSuccessor

def recoverPendingLocked : Program Unit := do
  if !(← pathIsPresent .rotationJournal) then
    discardStaged
  else
    let journal ← readJournal .rotationJournal
    core (validateJournal H env journal)
    completeRotationLocked H env journal

/-- What a rotation is asked for, and the key it generates. -/
structure RotationRequest where
  sourceRecord : AgentRecord
  lofts : List Bytes
  activatedAt : UInt64
  nextSeed : Bytes32

/-- The second half of `prepare_rotation_locked`: the next successor is staged and the
journal is signed, checked and written. -/
def stageRotation (request : RotationRequest) : Program RotationJournal := do
  let outgoing ← readSecret .operating
  let incoming ← readSecret .successor
  core (request.sourceRecord.verify H env.prim (Address.fromPubkey H (env.publicKey outgoing)))
  if request.sourceRecord.pubkey ≠ env.publicKey outgoing
      ∨ request.sourceRecord.successorHash ≠ commitment H (env.publicKey incoming) then
    throw (.core .successorMismatch)
  let _ ← createSecretOnce .stagedSuccessor request.nextSeed
  let next ← readSecret .stagedSuccessor
  let nextCommitment := commitment H (env.publicKey next)
  if request.sourceRecord.seq.toNat + 1 ≥ 2 ^ 64 then
    throw (.config "record sequence overflowed")
  let sequence := request.sourceRecord.seq + 1
  let record ← core (newRotationRecord env outgoing incoming nextCommitment sequence
    request.activatedAt)
  let journal : RotationJournal :=
    { record := record
      sourceRecord := request.sourceRecord
      targetRecord := recordWithPolicy env incoming nextCommitment sequence
        request.sourceRecord.lofts request.sourceRecord.powMin
        request.sourceRecord.attributionRequirement
      lofts := request.lofts }
  core (validateJournal H env journal)
  writeJsonReplacing env .rotationJournal journal
  return journal

def prepareRotationLocked (request : RotationRequest) : Program RotationJournal := do
  if ← pathIsPresent .rotationJournal then
    throw (.config "another key rotation is already pending")
  let (_, live) ← retiredIdentitiesAndLiveCountLocked H env request.activatedAt none
  if live ≥ maxLiveRetiredIdentities then
    throw (.config "at most 32 identities may remain in rotation grace")
  discardStaged
  stageRotation H env request

def rotateLocked (request : RotationRequest) : Program RotationOutcome := do
  let journal ← prepareRotationLocked H env request
  completeRotationLocked H env journal
  let identity ← readSecret .operating
  let successor ← readSecret .successor
  return ⟨identity, commitment H (env.publicKey successor), journal⟩

/-! ### Loading -/

/-- The three keys that a first run generates. -/
structure Seeds where
  successor : Bytes32
  token : Bytes32
  operating : Bytes32

def validateCustomRecoveryLayout : Program Unit := do
  if env.customRecovery then
    let defaultPresent ← pathIsPresent .defaultSuccessor
    let legacyPresent ← pathIsPresent .legacySuccessor
    let successorPresent ← pathIsPresent .successor
    if defaultPresent ∨ legacyPresent ∨ !successorPresent then throw .recoveryMigration

def migrateLegacySuccessor : Program Unit := do
  if !(← pathIsPresent .successor) then
    if !(← pathIsPresent .legacySuccessor) then
      throw (.config "operating identity exists but its successor key is missing")
    validateKeyFile .legacySuccessor
    onDisk fun disk => disk.rename .legacySuccessor .successor
    validateKeyFile .successor

/-- The first run: the successor and the token secret are published before the operating
identity. -/
def createKeys (seeds : Seeds) : Program (Bytes32 × Bytes32 × Bytes32 × Bool) := do
  let _ ← createSecretOnce .successor seeds.successor
  let _ ← createSecretOnce .tokenSecret seeds.token
  let created ← createSecretOnce .operating seeds.operating
  let identity ← readSecret .operating
  let successor ← readSecret .successor
  let tokenSecret ← readSecret .tokenSecret
  return (identity, commitment H (env.publicKey successor), tokenSecret, created)

def loadOrCreateLocked (seeds : Seeds) : Program (Bytes32 × Bytes32 × Bytes32 × Bool) := do
  if ← pathIsPresent .operating then
    validateCustomRecoveryLayout env
    migrateLegacySuccessor
    let identity ← readSecret .operating
    let successor ← readSecret .successor
    if !(← pathIsPresent .tokenSecret) then
      let _ ← createSecretOnce .tokenSecret (legacyTokenSecret H identity)
    let tokenSecret ← readSecret .tokenSecret
    return (identity, commitment H (env.publicKey successor), tokenSecret, false)
  else
    if ← pathIsPresent .legacySuccessor then
      throw (.config "successor key exists without an operating identity")
    if env.customRecovery then
      if ← pathIsPresent .defaultSuccessor then throw .recoveryMigration
    createKeys H env seeds

def loadOrCreate (now : UInt64) (seeds : Seeds) : Program LoadedKeys := do
  recoverPendingLocked H env
  let (identity, successor, tokenSecret, created) ← loadOrCreateLocked H env seeds
  let retired ← retiredIdentitiesLocked H env now
  return ⟨identity, successor, tokenSecret, created, retired⟩

def rotate (request : RotationRequest) : Program RotationOutcome := do
  recoverPendingLocked H env
  rotateLocked H env request

def retiredIdentities (now : UInt64) : Program (List RetiredIdentity) := do
  recoverPendingLocked H env
  retiredIdentitiesLocked H env now

/-- What is done before anything that needs the lease of the active identity. -/
def acquireActiveIdentityLease (expected : Bytes32) : Program Unit := do
  recoverPendingLocked H env
  let identity ← readSecret .operating
  if env.publicKey identity ≠ expected then
    throw (.config "agent identity changed on disk; reopen the agent before using its key")

/-- `rotate_with_lease` under a lease just acquired. -/
def rotateWithLease (expected : Bytes32) (request : RotationRequest) :
    Program RotationOutcome := do
  acquireActiveIdentityLease H env expected
  rotateLocked H env request

/-- `retired_identities_with_lease` under a lease just acquired. -/
def retiredIdentitiesWithLease (expected : Bytes32) (now : UInt64) :
    Program (List RetiredIdentity) := do
  acquireActiveIdentityLease H env expected
  retiredIdentitiesLocked H env now

/-! ## Runs -/

inductive Operation where
  | load (now : UInt64) (seeds : Seeds)
  | rotate (request : RotationRequest)
  | retired (now : UInt64)
  | rotateWithLease (expected : Bytes32) (request : RotationRequest)
  | retiredWithLease (expected : Bytes32) (now : UInt64)

def Operation.program : Operation → Program Unit
  | .load now seeds => do let _ ← loadOrCreate H env now seeds
  | .rotate request => do let _ ← Keystore.rotate H env request
  | .retired now => do let _ ← retiredIdentities H env now
  | .rotateWithLease expected request => do
    let _ ← Keystore.rotateWithLease H env expected request
  | .retiredWithLease expected now => do
    let _ ← retiredIdentitiesWithLease H env expected now

/-- A process runs an operation to its end, or stops after some of its actions and is
followed by a process with another or the same identifier. -/
inductive Event where
  | run (operation : Operation)
  | crash (operation : Operation) (actions pid : ℕ)
  | restart (pid : ℕ)

/-- A new process on a disk. -/
def Disk.boot (disk : Disk) (pid : ℕ) : Machine := ⟨disk, pid, 0, 0⟩

def Machine.step (m : Machine) : Event → Machine
  | .run operation => ((operation.program H env).run m).final
  | .crash operation actions pid =>
    ((operation.program H env).run.stopAfter actions m).disk.boot pid
  | .restart pid => m.disk.boot pid

def Machine.run (m : Machine) (events : List Event) : Machine := events.foldl (Machine.step H env) m

end Identities

end Pigeonpost.Keystore
