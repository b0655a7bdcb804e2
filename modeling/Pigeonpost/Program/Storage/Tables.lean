import Mathlib.Data.List.MinMax
import Pigeonpost.Program.Checkpoint
import Pigeonpost.Program.Entry

/-! # Tables of the registry database (`pigeonpost-registry/src/storage.rs`)

Each table is the list of its rows in insertion order, with the columns some
modelled statement reads. Integer columns hold natural numbers: every insertion
goes through `to_i64` of an unsigned value. The `entry_json` column holds the
entry itself. -/

namespace Pigeonpost

/-- The collaborators and the configuration of a registry process. -/
structure RegistryContext where
  prim : Primitives
  sigs : Signatures
  origin : Bytes
  signingKey : Bytes

structure EntryRow (H : Type) where
  seq : ℕ
  version : UInt8
  entryType : Bytes
  entry : LogEntry
  tsMs : ℕ
  leafHash : H

structure HandleHistoryRow where
  seq : ℕ
  handle : Bytes
  pubkey : Bytes
  subject : Bytes
deriving DecidableEq

/-- Primary key `handle`, unique `seq`. -/
structure CurrentBindingRow where
  handle : Bytes
  pubkey : Bytes
  subject : Bytes
  seq : ℕ

structure ComplianceKeyRow where
  seq : ℕ
  keyId : Bytes
  publicKey : Bytes
  notBeforeMs : ℕ
  notAfterMs : ℕ
  publishedAtMs : ℕ
  status : UInt8

/-- Primary key `(endpoint, loft_pubkey)`, unique `entry_seq`. -/
structure DirectoryMutationRow where
  endpoint : Bytes
  loftPubkey : Bytes
  mutationSequence : ℕ
  entrySeq : ℕ
  mutationKind : Bytes

def DirectoryMutationRow.stream (row : DirectoryMutationRow) : Bytes × Bytes :=
  (row.endpoint, row.loftPubkey)

structure CheckpointRow (H : Type) where
  treeSize : ℕ
  root : H
  note : Bytes

structure TreeState (H : Type) where
  size : ℕ
  root : H
  checkpoint : Bytes

structure PublishedState (H : Type) where
  state : TreeState H
  witnessedAt : Option ℕ

/-- Primary key `witness_name`. -/
structure WitnessReceiptRow (H : Type) where
  witnessName : Bytes
  treeSize : ℕ
  root : H
  witnessedAt : ℕ
  receiptJson : Bytes

structure StoredIdentityChallenge where
  challengeHash : Bytes
  provider : Bytes
  handle : Bytes
  pubkey : Bytes
  pkceChallenge : Option Bytes
  expiresAt : ℕ
  consumedAt : Option ℕ
  bindingSeq : Option ℕ

/-- The database. A Merkle node is found by level and index. -/
structure Store (H : Type) where
  entries : List (EntryRow H)
  handleHistory : List HandleHistoryRow
  currentBindings : List CurrentBindingRow
  complianceKeys : List ComplianceKeyRow
  directoryMutations : List DirectoryMutationRow
  merkleNodes : ℕ → ℕ → Option H
  checkpoints : List (CheckpointRow H)
  registryState : TreeState H
  publishedState : PublishedState H
  witnessReceipts : List (WitnessReceiptRow H)
  identityChallenges : List StoredIdentityChallenge

def malformedEntry (error : EntryError) : RegistryError := .malformedEntry error

def toI64 (value : ℕ) (description : String) : Except RegistryError ℕ :=
  if value ≤ i64Max then .ok value
  else .error (.malformedEntry (description ++ " exceeds SQLite range"))

def uniqueViolation (columns : String) : RegistryError :=
  .storage ("UNIQUE constraint failed: " ++ columns)

def decodeHex (input : Bytes) (len : ℕ) : Option Bytes :=
  if input.length ≠ len * 2 then none else decodeHexPairs input

section Fresh

variable {H : Type} [Sha256 H] [HashBytes H]

/-- The rows `create_fresh` inserts. -/
def Store.fresh (ctx : RegistryContext) : Store H :=
  let root : H := emptyRoot
  let note := Checkpoint.sign ctx.sigs ⟨ctx.origin, 0, root⟩ ctx.signingKey
  { entries := []
    handleHistory := []
    currentBindings := []
    complianceKeys := []
    directoryMutations := []
    merkleNodes := fun _ _ => none
    checkpoints := [⟨0, root, note⟩]
    registryState := ⟨0, root, note⟩
    publishedState := ⟨⟨0, root, note⟩, none⟩
    witnessReceipts := []
    identityChallenges := [] }

end Fresh

/-! ## The persisted Merkle tree (`pigeonpost-registry/src/storage.rs`) -/

variable {H : Type} [Sha256 H]

namespace Store

variable (s : Store H)

def readNode (level index : ℕ) : Except RegistryError H := do
  let index ← toI64 index "node index"
  match s.merkleNodes level index with
  | none =>
    throw (.corruptStorage ("missing Merkle node at level " ++ toString level
      ++ ", index " ++ toString index))
  | some hash => return hash

def setNode (level index : ℕ) (hash : H) : Store H :=
  { s with merkleNodes := fun l i =>
      if l = level ∧ i = index then some hash else s.merkleNodes l i }

def insertNode (level index : ℕ) (hash : H) : Except RegistryError (Store H) := do
  let index ← toI64 index "node index"
  match s.merkleNodes level index with
  | some _ => throw (uniqueViolation "merkle_nodes.level, merkle_nodes.node_index")
  | none =>
    return s.setNode level index hash

/-- The loop of `append_merkle_leaf`: while the node is a right child, its parent
is complete. -/
def climbNodes (s : Store H) (level nodeIndex : ℕ) (hash : H) : Except RegistryError (Store H) :=
  if nodeIndex % 2 = 1 then do
    let left ← s.readNode level (nodeIndex - 1)
    let hash := nodeHash left hash
    let s ← s.insertNode (level + 1) (nodeIndex / 2) hash
    s.climbNodes (level + 1) (nodeIndex / 2) hash
  else .ok s
termination_by nodeIndex

def appendMerkleLeaf (seq : ℕ) (leaf : H) : Except RegistryError (Store H) := do
  let s ← s.insertNode 0 seq leaf
  s.climbNodes 0 seq leaf

/-- Largest power of two strictly less than `n`, by the highest set bit. -/
def splitU64 (n : ℕ) : ℕ := 1 <<< Nat.log2 (n - 1)

theorem splitU64_pos (n : ℕ) : 0 < splitU64 n := by
  rw [splitU64, Nat.one_shiftLeft]
  exact Nat.two_pow_pos _

theorem splitU64_lt {n : ℕ} (h : 1 < n) : splitU64 n < n := by
  have hle := Nat.log2_self_le (n := n - 1) (by omega)
  rw [splitU64]
  omega

theorem one_lt_of_ragged {start size : ℕ} (hzero : ¬size = 0)
    (hragged : ¬(size.isPowerOfTwo ∧ start % size = 0)) : 1 < size := by
  by_contra hle
  obtain rfl : size = 1 := by omega
  exact hragged ⟨⟨0, rfl⟩, Nat.mod_one start⟩

def treeHashRange (s : Store H) (start size : ℕ) : Except RegistryError H :=
  if size = 0 then .ok emptyRoot
  else if size.isPowerOfTwo ∧ start % size = 0 then s.readNode (Nat.log2 size) (start / size)
  else do
    let k := splitU64 size
    let left ← s.treeHashRange start k
    let right ← s.treeHashRange (start + k) (size - k)
    return nodeHash left right
termination_by size
decreasing_by
  · next hzero hnode => exact splitU64_lt (one_lt_of_ragged hzero hnode)
  · have hpos := splitU64_pos size
    omega

def rootForSize (size : ℕ) : Except RegistryError H :=
  if size = 0 then .ok emptyRoot else s.treeHashRange 0 size

def inclusionPath (s : Store H) (start size index : ℕ) : Except RegistryError (List H) :=
  if size ≤ 1 then .ok []
  else
    let k := splitU64 size
    if index < k then do
      let proof ← s.inclusionPath start k index
      let right ← s.treeHashRange (start + k) (size - k)
      return proof ++ [right]
    else do
      let proof ← s.inclusionPath (start + k) (size - k) (index - k)
      let left ← s.treeHashRange start k
      return proof ++ [left]
termination_by size
decreasing_by
  · exact splitU64_lt (by omega)
  · have hpos := splitU64_pos size
    omega

/-- As in the in-memory log, a range of at most one leaf other than the old tree
itself has no proof. -/
def consistencyPath (s : Store H) (start size old : ℕ) (isRoot : Bool) :
    Except RegistryError (List H) :=
  if old = size then
    if isRoot then .ok [] else (s.treeHashRange start size).map fun root => [root]
  else if size ≤ 1 then .ok []
  else
    let k := splitU64 size
    if old ≤ k then do
      let proof ← s.consistencyPath start k old isRoot
      let right ← s.treeHashRange (start + k) (size - k)
      return proof ++ [right]
    else do
      let proof ← s.consistencyPath (start + k) (size - k) (old - k) false
      let left ← s.treeHashRange start k
      return proof ++ [left]
termination_by size
decreasing_by
  · exact splitU64_lt (by omega)
  · have hpos := splitU64_pos size
    omega

def consistencyProof (old new : ℕ) : Except RegistryError (Option (List H)) :=
  if old = 0 ∨ old > new ∨ new > s.registryState.size then .ok none
  else (s.consistencyPath 0 new old true).map some

end Store

end Pigeonpost
