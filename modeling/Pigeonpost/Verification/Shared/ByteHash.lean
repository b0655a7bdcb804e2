import Pigeonpost.Verification.Checkpoint.Notes

/-! # A hash and signatures for concrete runs -/

namespace Pigeonpost

/-- A hash that fits into one byte. -/
structure ByteHash where
  value : UInt8
deriving DecidableEq

namespace ByteHash

def mix (state : UInt8) (bytes : Bytes) : UInt8 := bytes.foldl (fun acc b => acc * 31 + b) state

instance : Sha256 ByteHash where
  digest chunks := ⟨chunks.foldl (fun state chunk =>
    match chunk with
    | .bytes data => mix state data
    | .hash hash => mix state [hash.value]) 7⟩

instance : HashBytes ByteHash where
  toBytes hash := List.replicate 32 hash.value
  ofBytes bytes := if bytes.length = 32 then bytes.head?.map mk else none
  ofBytes_toBytes _ := rfl

theorem hashes32 : Hashes32 ByteHash := fun _ => List.length_replicate

end ByteHash

/-- Signatures that name their key. -/
def namedSignatures : Signatures where
  verifyingKey key := key
  sign key _ := (key ++ List.replicate 64 0).take 64
  isWeak _ := false
  verifyStrict key _ signature := signature == (key ++ List.replicate 64 0).take 64
  sha256 data := (data ++ List.replicate 32 0).take 32

theorem namedSignatures_lawful : namedSignatures.Lawful where
  verifyStrict_sign _ _ := beq_self_eq_true _
  length_sign _ _ := by simp [namedSignatures]
  length_sha256 _ := by simp [namedSignatures]

end Pigeonpost
