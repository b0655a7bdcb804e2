import Pigeonpost.Program.Storage.Append

/-! # Identity challenges (`pigeonpost-registry/src/storage.rs`) -/

namespace Pigeonpost

variable {H : Type} [Sha256 H] [HashBytes H] [DecidableEq H]

def identityChallengeResultRetentionMs : ℕ := 5 * 60 * 1000

def challengeUnknown : RegistryError := .proofRejected "identity challenge is unknown or expired"

def challengeInvalid : RegistryError :=
  .proofRejected "identity challenge is invalid, expired, or already used"

structure IdentityChallengeCommit where
  provider : Bytes
  challengeHash : Bytes
  pubkey : Bytes
  expectedPkceChallenge : Option Bytes

/-- The clock readings of one commit, in the order the source takes them. -/
structure CommitClock where
  expiryCheck : ℕ
  checkpoint : ℕ
  consumed : ℕ

/-- Whether a row is past its expiry, or past the retention of its result. -/
def StoredIdentityChallenge.isStale (now : ℕ) (row : StoredIdentityChallenge) : Bool :=
  match row.consumedAt with
  | none => row.expiresAt < now
  | some consumedAt => consumedAt < now - identityChallengeResultRetentionMs

/-- The table's `CHECK` on provider and PKCE challenge. -/
def validProviderColumns (provider : Bytes) (pkceChallenge : Option Bytes) : Bool :=
  (provider == ascii "github" && pkceChallenge.isSome)
    || (provider == ascii "google" && pkceChallenge.isNone)

namespace Store

/-- The rows one insertion may remove: at most 256 stale ones, oldest expiry first. -/
def staleChallenges (now : ℕ) (rows : List StoredIdentityChallenge) : List Bytes :=
  (((rows.filter (·.isStale now)).mergeSort fun a b => a.expiresAt ≤ b.expiresAt).take 256).map
    (·.challengeHash)

def insertIdentityChallenge (now : ℕ) (provider challengeHash handle pubkey : Bytes)
    (pkceChallenge : Option Bytes) (expiresAtMs : ℕ) (s : Store H) :
    Except RegistryError (Store H × Unit) := do
  let now ← toI64 now "timestamp"
  let stale := staleChallenges now s.identityChallenges
  let kept := s.identityChallenges.filter fun row => !stale.contains row.challengeHash
  let outstanding := kept.countP fun row => row.consumedAt.isNone && row.expiresAt ≥ now
  if outstanding ≥ 100000 then
    throw (.proofRejected "identity challenge capacity is temporarily exhausted")
  let expiresAt ← toI64 expiresAtMs "challenge expiry"
  if kept.any fun row => row.challengeHash = challengeHash then
    throw (uniqueViolation "identity_challenges.challenge_hash")
  if !validProviderColumns provider pkceChallenge then
    throw (.storage "CHECK constraint failed: identity_challenges")
  return ({ s with identityChallenges := kept ++
    [⟨challengeHash, provider, handle, pubkey, pkceChallenge, expiresAt, none, none⟩] }, ())

def readIdentityChallenge (s : Store H) (challengeHash : Bytes) : Option StoredIdentityChallenge :=
  s.identityChallenges.find? fun row => row.challengeHash = challengeHash

def validateIdentityChallengeFields (stored : StoredIdentityChallenge)
    (provider handle pubkey : Bytes) (expectedPkceChallenge : Option Bytes) :
    Except RegistryError Unit :=
  if stored.provider ≠ provider ∨ stored.handle ≠ handle ∨ stored.pubkey ≠ pubkey
      ∨ stored.pkceChallenge ≠ expectedPkceChallenge then
    .error challengeInvalid
  else .ok ()

/-- Whether the kind of a recovered leaf is the one the request asks for. -/
def expectedKind : LogEntry → HandleAppendMode → Bool
  | .handleClaim _, .register => true
  | .handleRotation _, .rotate => true
  | _, _ => false

variable (ctx : RegistryContext)

def validateRecoveredHandleBinding (s : Store H) (seq : ℕ)
    (request : HandleAppendRequest) : Except RegistryError Unit := do
  match ← s.entryAt ctx seq with
  | none => throw (.corruptStorage "challenge result points at a missing entry")
  | some entry =>
    let expectedBinding :=
      entry.handleBinding = some ⟨request.handle, request.pubkey, request.subject⟩
    if !expectedKind entry request.mode ∨ ¬expectedBinding then
      throw (.proofRejected "identity challenge was already used for another binding")

/-- What the challenge of a commit leads to: an error, the recovered sequence of
an earlier commit, or the permission to append. -/
def admitChallenge (now : ℕ) (challenge : IdentityChallengeCommit)
    (request : HandleAppendRequest) (s : Store H) : Except RegistryError (Option ℕ) := do
  if decodeHex request.pubkey 32 ≠ some challenge.pubkey then
    throw (.corruptStorage "challenge commit public key encoding disagrees with its bound key")
  match s.readIdentityChallenge challenge.challengeHash with
  | none => throw challengeUnknown
  | some stored =>
    validateIdentityChallengeFields stored challenge.provider request.handle challenge.pubkey
      challenge.expectedPkceChallenge
    if stored.consumedAt.isSome then
      match stored.bindingSeq with
      | none => throw (.corruptStorage "consumed identity challenge has no binding result")
      | some seq =>
        s.validateRecoveredHandleBinding ctx seq request
        return some seq
    else if stored.expiresAt < now then throw challengeInvalid
    else return none

def isOpen (challengeHash : Bytes) (row : StoredIdentityChallenge) : Bool :=
  row.challengeHash = challengeHash ∧ row.consumedAt = none ∧ row.bindingSeq = none

def markConsumed (now seq : ℕ) (challengeHash : Bytes) (row : StoredIdentityChallenge) :
    StoredIdentityChallenge :=
  if isOpen challengeHash row then { row with consumedAt := some now, bindingSeq := some seq }
  else row

/-- Records the sequence a challenge was used for. -/
def consumeChallenge (now seq : ℕ) (challengeHash : Bytes) (s : Store H) :
    Except RegistryError (Store H) := do
  let now ← toI64 now "timestamp"
  let seq ← toI64 seq "challenge binding sequence"
  if !s.identityChallenges.any (isOpen challengeHash) then throw challengeInvalid
  if s.identityChallenges.any fun row =>
      !isOpen challengeHash row && row.bindingSeq = some seq then
    throw (uniqueViolation "identity_challenges.binding_seq")
  return { s with
    identityChallenges := s.identityChallenges.map (markConsumed now seq challengeHash) }

/-- Atomically consumes a challenge and appends, or recovers, its binding. -/
def commitHandleBinding (clock : CommitClock)
    (challenge : Option IdentityChallengeCommit) (request : HandleAppendRequest) (s : Store H) :
    Except RegistryError (Store H × HandleAppend) :=
  match challenge with
  | none => s.appendHandleInTransaction ctx clock.checkpoint request
  | some challenge => do
    match ← s.admitChallenge ctx clock.expiryCheck challenge request with
    | some seq => return (s, ⟨seq, false⟩)
    | none =>
      let (s, appended) ← s.appendHandleInTransaction ctx clock.checkpoint request
      let s ← s.consumeChallenge clock.consumed appended.seq challenge.challengeHash
      return (s, appended)

end Store

end Pigeonpost
