import Pigeonpost.Program.Client.Resolve
import Pigeonpost.Verification.Shared.SymbolicRegistry

/-! # A client and its registry on a two-entry log

Symbolic hashes are longer than 32 bytes, so the hashes that travel in hexadecimal
get short names. -/

namespace Pigeonpost

def SampleHash := SymbolicHash

instance : DecidableEq SampleHash := inferInstanceAs (DecidableEq SymbolicHash)

instance : Sha256 SampleHash := inferInstanceAs (Sha256 SymbolicHash)

theorem SampleHash.nodeHash_injective2 :
    Function.Injective2 (nodeHash : SampleHash → SampleHash → SampleHash) :=
  SymbolicHash.nodeHash_injective2

theorem SampleHash.leafHash_injective : Function.Injective (leafHash : Bytes → SampleHash) :=
  SymbolicHash.leafHash_injective

def claimLeaf : Bytes := (aliceClaim.leafBytes symbolicPrimitives).toOption.getD []

def rotationLeaf : Bytes := (aliceRotation.leafBytes symbolicPrimitives).toOption.getD []

def claimHash : SampleHash := leafHash claimLeaf

def rotationHash : SampleHash := leafHash rotationLeaf

def shortName (digit : UInt8) : Bytes := List.replicate 32 digit

instance : HashBytes SampleHash where
  toBytes hash :=
    if hash = claimHash then shortName 0
    else if hash = rotationHash then shortName 1
    else if hash = nodeHash claimHash rotationHash then shortName 2
    else 0xff :: SymbolicHash.toBytes hash
  ofBytes
    | 0x00 :: _ => some claimHash
    | 0x01 :: _ => some rotationHash
    | 0x02 :: _ => some (nodeHash claimHash rotationHash)
    | _ :: rest => (SymbolicHash.read rest.length rest).map Prod.fst
    | [] => none
  ofBytes_toBytes hash := by
    split_ifs with h₀ h₁ h₂
    · exact congrArg some h₀.symm
    · exact congrArg some h₁.symm
    · exact congrArg some h₂.symm
    · have hread := SymbolicHash.read_toBytes hash (SymbolicHash.toBytes hash).length [] le_rfl
      rw [List.append_nil] at hread
      exact congrArg (Option.map Prod.fst) hread

/-! ## Trust -/

/-- Every signature of 64 bytes is accepted. -/
def sampleSignatures : Signatures where
  verifyingKey key := key
  sign _ _ := List.replicate 64 0
  isWeak _ := false
  verifyStrict _ _ _ := true
  sha256 bytes := bytes

def sampleWitness : WitnessKey := ⟨ascii "witness.test", ascii "witness"⟩

def sampleTrust : RegistryTrust SampleHash where
  expectedOrigin := ascii "registry.test"
  checkpointKey := ascii "key"
  witnesses := [sampleWitness]
  witnessThreshold := 1
  minimumCheckpoint := ⟨0, emptyRoot⟩
  maxCosignatureAgeSecs := 60
  futureClockSkewSecs := 5

def sampleNote (size : ℕ) (root : SampleHash) : Bytes :=
  let checkpoint : Checkpoint SampleHash := ⟨sampleTrust.expectedOrigin, size, root⟩
  checkpoint.sign sampleSignatures sampleTrust.checkpointKey ++
    ((checkpoint.cosignatureLine sampleSignatures sampleWitness.name sampleWitness.key
      100).toOption.getD [])

/-! ## Two states of the registry -/

/-- After the claim, with a dump in two chunks. -/
def claimRegistry : Registry
  | .dump _ _ => .response 200 none [ascii "claim", [0x0a]] true
  | _ => .response 200 none [ascii "1"] true

/-- After the rotation, with a dump that breaks off. -/
def rotationRegistry : Registry
  | .dump _ _ => .response 200 none [ascii "rotat"] false
  | _ => .response 200 none [ascii "2"] true

def sampleJson : JsonDecoders where
  resolve body :=
    if body = ascii "1" then
      some ⟨aliceHandle, sampleKey 0x61, 0, 1, hex (shortName 0), [], sampleNote 1 claimHash⟩
    else
      some ⟨aliceHandle, sampleKey 0x62, 1, 2, hex (shortName 2), [hex (shortName 0)],
        sampleNote 2 (nodeHash claimHash rotationHash)⟩
  entries body :=
    if body = ascii "1" then
      some ⟨0, 1, 1, hex (shortName 0), sampleNote 1 claimHash, [aliceClaim]⟩
    else
      some ⟨1, 2, 2, hex (shortName 2), sampleNote 2 (nodeHash claimHash rotationHash),
        [aliceRotation]⟩
  consistency _ := some ⟨1, 2, hex (shortName 2), [hex (shortName 1)]⟩
  entry line := if line = ascii "claim" then some aliceClaim else none

def sampleClient : RegistryClient SampleHash where
  trust := sampleTrust
  prim := symbolicPrimitives
  sigs := sampleSignatures
  json := sampleJson

def alice : Handle :=
  ⟨ascii "github", ascii "alice", by decide, by decide⟩

end Pigeonpost
