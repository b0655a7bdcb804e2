import Pigeonpost.Library.Base64
import Pigeonpost.Library.Text
import Pigeonpost.Program.Handle
import Pigeonpost.Program.Log

/-! # Signed tree heads (`pigeonpost-registry/src/checkpoint.rs`) -/

namespace Pigeonpost

class HashBytes (H : Type*) where
  toBytes : H → Bytes
  ofBytes : Bytes → Option H
  ofBytes_toBytes : ∀ hash, ofBytes (toBytes hash) = some hash

/-- Ed25519 and the plain SHA-256 behind key hashes. Keys are their bytes. -/
structure Signatures where
  verifyingKey : Bytes → Bytes
  sign : Bytes → Bytes → Bytes
  isWeak : Bytes → Bool
  verifyStrict : Bytes → Bytes → Bytes → Bool
  sha256 : Bytes → Bytes

def algEd25519 : UInt8 := 0x01

def algEd25519Cosignature : UInt8 := 0x04

def newline : UInt8 := 0x0a

def space : UInt8 := 0x20

/-- The em dash and the blank that open a signature line. -/
def signatureStart : Bytes := [0xe2, 0x80, 0x94, 0x20]

def maxCheckpointBytes : ℕ := 64 * 1024

def witnessQuorumIntersects (threshold witnessCount : ℕ) : Bool :=
  threshold != 0 && threshold ≤ witnessCount && threshold > witnessCount / 2

def b64 (input : Bytes) : Bytes := Base64.encode input

/-- The `trim` of the source finds nothing to remove: the checks before it allow no white space. -/
def unb64 (input : Bytes) : Option Bytes := Base64.decode input

structure Checkpoint (H : Type*) where
  origin : Bytes
  size : ℕ
  root : H
deriving DecidableEq

structure WitnessKey where
  name : Bytes
  key : Bytes
deriving DecidableEq

structure VerifiedCheckpoint (H : Type*) where
  checkpoint : Checkpoint H
  witnessedAt : Option ℕ

def isAsciiWhitespace (b : UInt8) : Bool :=
  b == 0x20 || b == 0x09 || b == 0x0a || b == 0x0c || b == 0x0d

section KeyHashes

variable (sigs : Signatures)

/-- The first four bytes of the digest that identifies a key under a name. -/
def namedKeyHash (alg : UInt8) (name key : Bytes) : Bytes :=
  (sigs.sha256 (name ++ [newline] ++ [alg] ++ key)).take 4

def keyHash (origin key : Bytes) : Bytes := namedKeyHash sigs algEd25519 origin key

def cosignatureKeyHash (name key : Bytes) : Bytes :=
  namedKeyHash sigs algEd25519Cosignature name key

def WitnessKey.new (name key : Bytes) : Except RegistryError WitnessKey :=
  if name.isEmpty || name.length > 256
      || name.any (fun b => isAsciiControl b || isAsciiWhitespace b) then
    .error (.malformedCheckpoint "witness name is malformed")
  else if sigs.isWeak key then
    .error (.invalidConfiguration "invalid registry witness key")
  else .ok ⟨name, key⟩

/-! ## Signature lines -/

def signatureBlob (expectedName line : Bytes) : Option Bytes :=
  match stripStart signatureStart line with
  | none => none
  | some rest =>
    match splitOnce space rest with
    | none => none
    | some (name, encoded) =>
      if name ≠ expectedName ∨ encoded.contains space then none else Base64.decode encoded

def cosignatureMessage (timestamp : ℕ) (body : Bytes) : Bytes :=
  ascii "cosignature/v1" ++ [newline] ++ ascii "time " ++ decimal timestamp ++ [newline] ++ body

/-- The freshness window of a verifier: now, maximal age, future skew. -/
structure Freshness where
  now : ℕ
  maxAge : ℕ
  futureSkew : ℕ

def u64MaxValue : ℕ := 2 ^ 64 - 1

def Freshness.rejects (freshness : Freshness) (timestamp : ℕ) : Bool :=
  timestamp > min (freshness.now + freshness.futureSkew) u64MaxValue
    || timestamp < freshness.now - freshness.maxAge

def validCosignature (body expectedName key : Bytes) (freshness : Option Freshness)
    (line : Bytes) : Option ℕ :=
  match signatureBlob expectedName line with
  | none => none
  | some blob =>
    if blob.length ≠ 4 + 8 + 64 ∨ blob.take 4 ≠ cosignatureKeyHash sigs expectedName key then
      none
    else
      let timestamp := readBE ((blob.drop 4).take 8)
      if timestamp > i64Max then none
      else if freshness.any (·.rejects timestamp) then none
      else if sigs.verifyStrict key (cosignatureMessage timestamp (body ++ [newline]))
          (blob.drop 12) then
        some timestamp
      else none

def newestValidCosignature (body signatures expectedName key : Bytes)
    (freshness : Option Freshness) : Option ℕ :=
  ((lines signatures).filterMap (validCosignature sigs body expectedName key freshness)).max?

def hasValidSignature (body signatures expectedName key : Bytes) : Bool :=
  (lines signatures).any fun line =>
    match signatureBlob expectedName line with
    | none => false
    | some blob =>
      if blob.length ≠ 4 + 64 ∨ blob.take 4 ≠ keyHash sigs expectedName key then false
      else sigs.verifyStrict key (body ++ [newline]) (blob.drop 4)

def signatureLine (name blob : Bytes) : Bytes :=
  signatureStart ++ name ++ [space] ++ Base64.encode blob ++ [newline]

end KeyHashes

/-! ## Checkpoints -/

namespace Checkpoint

variable {H : Type*} [HashBytes H] (sigs : Signatures)

def body (checkpoint : Checkpoint H) : Bytes :=
  checkpoint.origin ++ [newline] ++ decimal checkpoint.size ++ [newline]
    ++ Base64.encode (HashBytes.toBytes checkpoint.root) ++ [newline]

/-- Body plus signature line. -/
def sign (checkpoint : Checkpoint H) (key : Bytes) : Bytes :=
  checkpoint.body ++ [newline] ++
    signatureLine checkpoint.origin
      (keyHash sigs checkpoint.origin (sigs.verifyingKey key) ++ sigs.sign key checkpoint.body)

def cosignatureLine (checkpoint : Checkpoint H) (witnessName witnessKey : Bytes)
    (timestamp : ℕ) : Except RegistryError Bytes := do
  let _ ← WitnessKey.new sigs witnessName (sigs.verifyingKey witnessKey)
  if timestamp > i64Max then
    throw (.malformedCheckpoint "cosignature timestamp exceeds the C2SP limit")
  return signatureLine witnessName
    (cosignatureKeyHash sigs witnessName (sigs.verifyingKey witnessKey)
      ++ beBytes 8 timestamp
      ++ sigs.sign witnessKey (cosignatureMessage timestamp checkpoint.body))

def parseBody (body : Bytes) : Except RegistryError (Checkpoint H) :=
  match lines body with
  | [] => .error (.malformedCheckpoint "no origin")
  | [_] => .error (.malformedCheckpoint "no size")
  | origin :: sizeText :: rest =>
    match parseUnsigned (2 ^ 64) sizeText with
    | none => .error (.malformedCheckpoint "size is not a number")
    | some size =>
      match rest with
      | [] => .error (.malformedCheckpoint "no root")
      | rootB64 :: extra =>
        if !extra.isEmpty then
          .error (.malformedCheckpoint "checkpoint body has extra fields")
        else
          match (Base64.decode rootB64).bind HashBytes.ofBytes with
          | none => .error (.malformedCheckpoint "root is not 32 bytes")
          | some root => .ok ⟨origin, size, root⟩

def verify (text key : Bytes) : Except RegistryError (Checkpoint H) :=
  if text.length > maxCheckpointBytes then
    .error (.malformedCheckpoint "checkpoint exceeds 64 KiB")
  else
    match splitOnceAt [newline, newline] text with
    | none => .error (.malformedCheckpoint "missing signature block")
    | some (body, signatures) => do
      let checkpoint ← parseBody body
      if !hasValidSignature sigs body signatures checkpoint.origin key then
        throw (.malformedCheckpoint "no valid signature from the expected key")
      return checkpoint

def hasDuplicateWitness : List WitnessKey → Bool
  | [] => false
  | witness :: rest =>
    rest.any (fun later => witness.name == later.name || witness.key == later.key)
      || hasDuplicateWitness rest

variable (text registryKey : Bytes) (witnesses : List WitnessKey)

def verifyWitnessPolicy
    (threshold : ℕ) (freshness : Option Freshness) :
    Except RegistryError (VerifiedCheckpoint H) := do
  if threshold ≠ 0 ∧ !witnessQuorumIntersects threshold witnesses.length then
    throw (.malformedCheckpoint "witness threshold does not guarantee quorum intersection")
  if hasDuplicateWitness witnesses then
    throw (.malformedCheckpoint "duplicate witness configuration")
  let checkpoint ← verify sigs text registryKey
  if threshold = 0 then return ⟨checkpoint, none⟩
  match splitOnceAt [newline, newline] text with
  | none => throw (.malformedCheckpoint "missing signature block")
  | some (body, signatures) =>
    let verified := witnesses.filterMap fun witness =>
      newestValidCosignature sigs body signatures witness.name witness.key freshness
    if verified.length < threshold then
      throw (.malformedCheckpoint "fresh witness cosignature threshold not met")
    return ⟨checkpoint, (verified.mergeSort (fun left right => left ≥ right))[threshold - 1]?⟩

def verifyWithWitnesses
    (threshold : ℕ) : Except RegistryError (Checkpoint H) := do
  let verified ← verifyWitnessPolicy sigs text registryKey witnesses threshold none
  return verified.checkpoint

def verifyWithFreshWitnesses
    (threshold nowSecs maxAgeSecs futureSkewSecs : ℕ) :
    Except RegistryError (VerifiedCheckpoint H) :=
  if nowSecs > i64Max ∨ maxAgeSecs = 0 ∨ futureSkewSecs > maxAgeSecs then
    .error (.malformedCheckpoint "invalid witness freshness policy")
  else
    verifyWitnessPolicy sigs text registryKey witnesses threshold
      (some ⟨nowSecs, maxAgeSecs, futureSkewSecs⟩)

end Checkpoint

end Pigeonpost
