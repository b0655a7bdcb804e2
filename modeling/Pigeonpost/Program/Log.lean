import Pigeonpost.Library.ByteString
import Mathlib.Data.Nat.Bits

/-! # The transparency log (`pigeonpost-registry/src/log.rs`)

RFC 6962's Merkle tree: the in-memory log, the compact frontier an auditing
client keeps, and the two proof verifiers. -/

namespace Pigeonpost

/-- What a hasher is fed with: plain bytes, or a hash computed before. -/
inductive Chunk (H : Type*) where
  | bytes (data : Bytes)
  | hash (value : H)

/-- SHA-256 as the source uses it, over an abstract type of 32-byte values. -/
class Sha256 (H : Type*) where
  digest : List (Chunk H) → H

variable {H : Type*} [Sha256 H]

def leafPrefix : UInt8 := 0x00

def nodePrefix : UInt8 := 0x01

/-- Hash of an empty tree. -/
def emptyRoot : H := Sha256.digest []

def leafHash (data : Bytes) : H :=
  Sha256.digest [.bytes [leafPrefix], .bytes data]

def nodeHash (left right : H) : H :=
  Sha256.digest [.bytes [nodePrefix], .hash left, .hash right]

/-! ## The split point -/

/-- The loop of `split`: doubles `k` while twice `k` is below `n`. -/
def splitLoop (n k : ℕ) (hk : 0 < k) : ℕ :=
  if k <<< 1 < n then splitLoop n (k <<< 1) (by rw [Nat.shiftLeft_eq]; omega) else k
termination_by n - k
decreasing_by
  rw [Nat.shiftLeft_eq] at *
  omega

/-- Largest power of two strictly less than `n`. -/
def split (n : ℕ) : ℕ := splitLoop n 1 Nat.one_pos

theorem splitLoop_lt {n k : ℕ} (hk : 0 < k) (h : k < n) : splitLoop n k hk < n := by
  induction k, hk using splitLoop.induct n with
  | case1 _ _ hlt ih =>
    rw [splitLoop, if_pos hlt]
    exact ih hlt
  | case2 _ _ hlt =>
    rw [splitLoop, if_neg hlt]
    exact h

theorem splitLoop_pos {n k : ℕ} (hk : 0 < k) : 0 < splitLoop n k hk := by
  induction k, hk using splitLoop.induct n with
  | case1 _ _ hlt ih =>
    rw [splitLoop, if_pos hlt]
    exact ih
  | case2 k hk hlt =>
    rw [splitLoop, if_neg hlt]
    exact hk

theorem split_lt {n : ℕ} (h : 1 < n) : split n < n :=
  splitLoop_lt _ h

theorem split_pos (n : ℕ) : 0 < split n :=
  splitLoop_pos _

/-! ## The in-memory log -/

/-- An append-only log of leaf hashes. -/
structure MerkleLog (H : Type*) where
  leaves : List H

namespace MerkleLog

def rootRange : List H → H
  | [] => emptyRoot
  | [leaf] => leaf
  | a :: b :: rest =>
    let k := split (rest.length + 2)
    nodeHash (rootRange ((a :: b :: rest).take k)) (rootRange ((a :: b :: rest).drop k))
termination_by leaves => leaves.length
decreasing_by
  · have hlt : k < rest.length + 2 := split_lt (by omega)
    simp only [List.length_take, List.length_cons]
    omega
  · have hpos : 0 < k := split_pos _
    simp only [List.length_drop, List.length_cons]
    omega

variable (log : MerkleLog H)

def size : ℕ := log.leaves.length

/-- Root of the first `n` leaves. -/
def rootOf (n : ℕ) : H :=
  if n = 0 then emptyRoot else rootRange (log.leaves.take n)

def root : H := log.rootOf log.leaves.length

def path (leaves : List H) (index : ℕ) : List H :=
  if leaves.length ≤ 1 then []
  else
    let k := split leaves.length
    if index < k then
      path (leaves.take k) index ++ [rootRange (leaves.drop k)]
    else
      path (leaves.drop k) (index - k) ++ [rootRange (leaves.take k)]
termination_by leaves.length
decreasing_by
  · have hlt : k < leaves.length := split_lt (by omega)
    rw [List.length_take]
    omega
  · have hpos : 0 < k := split_pos _
    rw [List.length_drop]
    omega

def inclusionProof (index size : ℕ) : Option (List H) :=
  if size > log.leaves.length ∨ index ≥ size then none
  else some (path (log.leaves.take size) index)

/-- The source calls `split` only on at least two leaves; a smaller range other
than the old tree itself has no proof. -/
def consistency (leaves : List H) (m : ℕ) (isRoot : Bool) : List H :=
  if m = leaves.length then
    if isRoot then [] else [rootRange leaves]
  else if leaves.length ≤ 1 then []
  else
    let k := split leaves.length
    if m ≤ k then
      consistency (leaves.take k) m isRoot ++ [rootRange (leaves.drop k)]
    else
      consistency (leaves.drop k) (m - k) false ++ [rootRange (leaves.take k)]
termination_by leaves.length
decreasing_by
  · have hlt : k < leaves.length := split_lt (by omega)
    rw [List.length_take]
    omega
  · have hpos : 0 < k := split_pos _
    rw [List.length_drop]
    omega

/-- Proof that the tree of size `old` is a prefix of the tree of size `new`. -/
def consistencyProof (old new : ℕ) : Option (List H) :=
  if old > new ∨ new > log.leaves.length ∨ old = 0 then none
  else some (consistency (log.leaves.take new) old true)

end MerkleLog

/-! ## The compact frontier -/

/-- One hash for each set bit of `size`, lowest level first. -/
structure MerkleFrontier (H : Type*) where
  size : ℕ
  peaks : List (Option H)

namespace MerkleFrontier

def u64Bits : ℕ := 64

def u64Max : ℕ := 2 ^ 64 - 1

def new : MerkleFrontier H := ⟨0, []⟩

variable (f : MerkleFrontier H)

/-- Rejects malformed persisted state. -/
def validate : Bool :=
  f.peaks.length ≤ u64Bits
    && f.peaks.zipIdx.all (fun (peak, level) => peak.isSome == f.size.testBit level)
    && (f.peaks.length == u64Bits || f.size >>> f.peaks.length == 0)

/-- The carry loop of `append_hash`: takes the peak of every low set bit. -/
def carry (peaks : List (Option H)) (level occupied : ℕ) (hash : H) :
    Option (List (Option H) × ℕ × H) :=
  if occupied % 2 = 1 then
    match peaks[level]? with
    | some (some left) =>
      carry (peaks.set level none) (level + 1) (occupied / 2) (nodeHash left hash)
    | _ => none
  else some (peaks, level, hash)
termination_by occupied

/-- The end of `append_hash`: grows the peaks up to `level` and sets that one. -/
def place (peaks : List (Option H)) (level : ℕ) (hash : H) : List (Option H) :=
  (if peaks.length ≤ level then
      peaks ++ List.replicate (level + 1 - peaks.length) none
    else peaks).set level (some hash)

/-- Appends a leaf hash and returns its index. A frontier for which the source
returns `None` is dropped by every caller. -/
def appendHash (leaf : H) : Option (MerkleFrontier H × ℕ) :=
  if !f.validate || f.size == u64Max then none
  else
    match carry f.peaks 0 f.size leaf with
    | none => none
    | some (peaks, level, hash) => some (⟨f.size + 1, place peaks level hash⟩, f.size)

/-- The carry loop on the peaks in place: a failing turn has taken the peaks before it. -/
def carryInPlace (peaks : List (Option H)) (level occupied : ℕ) (hash : H) :
    List (Option H) × Option (ℕ × H) :=
  if occupied % 2 = 1 then
    match peaks[level]? with
    | some (some left) =>
      carryInPlace (peaks.set level none) (level + 1) (occupied / 2) (nodeHash left hash)
    | _ => (peaks, none)
  else (peaks, some (level, hash))
termination_by occupied

/-- `append_hash` with the frontier it leaves behind when it returns `None`. -/
def appendHashInPlace (leaf : H) : MerkleFrontier H × Option ℕ :=
  if !f.validate || f.size == u64Max then (f, none)
  else
    match carryInPlace f.peaks 0 f.size leaf with
    | (peaks, none) => ({ f with peaks }, none)
    | (peaks, some (level, hash)) => (⟨f.size + 1, place peaks level hash⟩, some f.size)

def append (data : Bytes) : Option (MerkleFrontier H × ℕ) :=
  f.appendHash (leafHash data)

/-- One turn of the loop in `root`. -/
def joinPeak (root : Option H) (peak : H) : Option H :=
  some (match root with
    | some right => nodeHash peak right
    | none => peak)

def root : Option H :=
  if !f.validate then none
  else if f.size = 0 then some emptyRoot
  else f.peaks.reduceOption.foldl joinPeak none

end MerkleFrontier

/-! ## The proof verifiers -/

/-- The inner loop of both verifiers: climbs while `node` is a left child. -/
def skipLevels (node last : ℕ) : ℕ × ℕ :=
  if node ≠ 0 ∧ node % 2 = 0 then skipLevels (node / 2) (last / 2) else (node, last)
termination_by node
decreasing_by omega

/-- The loop over the proof in `verify_inclusion`. -/
def climbInclusion : List H → ℕ → ℕ → H → Option H
  | [], _, last, hash => if last = 0 then some hash else none
  | sibling :: proof, node, last, hash =>
    if last = 0 then none
    else if node % 2 = 1 ∨ node = last then
      let (node, last) := skipLevels node last
      climbInclusion proof (node / 2) (last / 2) (nodeHash sibling hash)
    else climbInclusion proof (node / 2) (last / 2) (nodeHash hash sibling)

def verifyInclusion [DecidableEq H] (leaf : H) (index size : ℕ) (proof : List H)
    (expectedRoot : H) : Bool :=
  if index ≥ size then false
  else
    match climbInclusion proof index (size - 1) leaf with
    | some hash => hash = expectedRoot
    | none => false

/-- The first loop of `verify_consistency`: strips the low set bits of `node`. -/
def stripRight (node last : ℕ) : ℕ × ℕ :=
  if node % 2 = 1 then stripRight (node / 2) (last / 2) else (node, last)
termination_by node

/-- The loop over the proof in `verify_consistency`. -/
def climbConsistency : List H → ℕ → ℕ → H → H → Option (H × H)
  | [], _, last, oldHash, newHash => if last = 0 then some (oldHash, newHash) else none
  | step :: proof, node, last, oldHash, newHash =>
    if last = 0 then none
    else if node % 2 = 1 ∨ node = last then
      let (node, last) := skipLevels node last
      climbConsistency proof (node / 2) (last / 2) (nodeHash step oldHash)
        (nodeHash step newHash)
    else climbConsistency proof (node / 2) (last / 2) oldHash (nodeHash newHash step)

/-- Verifies that `oldRoot` (size `old`) is a prefix of `newRoot` (size `new`). -/
def verifyConsistency [DecidableEq H] (old : ℕ) (oldRoot : H) (new : ℕ) (newRoot : H)
    (proof : List H) : Bool :=
  if old = 0 ∨ old > new then false
  else if old = new then proof.isEmpty && oldRoot = newRoot
  else
    match if old.isPowerOfTwo then oldRoot :: proof else proof with
    | [] => false
    | first :: steps =>
      let (node, last) := stripRight (old - 1) (new - 1)
      match climbConsistency steps node last first first with
      | some (oldHash, newHash) => oldHash = oldRoot && newHash = newRoot
      | none => false

end Pigeonpost
