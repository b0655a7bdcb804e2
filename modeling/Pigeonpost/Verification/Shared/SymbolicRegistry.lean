import Pigeonpost.Program.Storage.Challenge
import Pigeonpost.Verification.Shared.SymbolicHash

/-! # A registry with symbolic collaborators -/

namespace Pigeonpost

/-- No URL parses, every key and signature is accepted. -/
def symbolicPrimitives : Primitives where
  parseUrl _ := none
  verifyingKeyFromBytes _ := true
  verify _ _ _ := true

/-- A signature is the message itself. -/
def symbolicSignatures : Signatures where
  verifyingKey key := key
  sign _ message := message
  isWeak _ := false
  verifyStrict _ message signature := message == signature
  sha256 bytes := bytes

def symbolicContext : RegistryContext where
  prim := symbolicPrimitives
  sigs := symbolicSignatures
  origin := ascii "registry.test"
  signingKey := ascii "key"

def aliceHandle : Bytes := ascii "/github/alice"

def aliceSubject : Bytes := ascii "github:1"

/-- The hexadecimal text of 32 equal bytes. -/
def sampleKey (digit : UInt8) : Bytes := List.replicate 64 digit

def aliceClaim : LogEntry := .ofHandleClaim 0 aliceHandle (sampleKey 0x61) aliceSubject 1000

def aliceRotation : LogEntry :=
  .ofHandleRotation 1 aliceHandle (sampleKey 0x62) aliceSubject 2000

def aliceRequest (mode : HandleAppendMode) : HandleAppendRequest :=
  ⟨aliceHandle, sampleKey 0x61, aliceSubject, 1000, mode⟩

/-- A challenge for the handle and the key of the sample claim. -/
def aliceChallenge (challengeHash : Bytes) : IdentityChallengeCommit :=
  ⟨ascii "github", challengeHash, List.replicate 32 0xaa, some (ascii "pkce")⟩

end Pigeonpost
