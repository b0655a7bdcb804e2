import Pigeonpost.Program.Entry
import Pigeonpost.Program.Log
import Mathlib.Data.List.AList

/-! # Log auditors of a registry client (`pigeonpost-registry/src/client.rs`) -/

namespace Pigeonpost

def maxComplianceKeys : ℕ := 4096

/-- A hash map, as the list of its entries. -/
abbrev HashMap (κ ν : Type) := AList fun _ : κ => ν

def parseHex32 (input : Bytes) : Option Bytes :=
  if input.length ≠ 64 ∨ input.any (fun b => !isAsciiHexdigit b) then none
  else do
    let out ← decodeHexPairs input
    if hex out = input then some out else none

/-! ## Handle bindings -/

structure AuditedHandleBinding where
  pubkey : Bytes
  subject : Bytes
  logIndex : ℕ
deriving DecidableEq

structure AuditedHandleMutation where
  kind : EntryKind
  handle : Bytes
  pubkey : Bytes
  subject : Bytes
  logIndex : ℕ

def AuditedHandleMutation.binding (mutation : AuditedHandleMutation) : AuditedHandleBinding :=
  ⟨mutation.pubkey, mutation.subject, mutation.logIndex⟩

/-- The state machine of one handle. -/
def validateHandleTransition (previous : Option AuditedHandleBinding)
    (mutation : AuditedHandleMutation) : Except RegistryError Unit :=
  match mutation.kind with
  | .handleClaim =>
    if previous.isSome then
      .error (.malformedEntry "audited handle was claimed more than once")
    else .ok ()
  | .handleRotation =>
    match previous with
    | none => .error (.malformedEntry "audited handle rotation appears before its claim")
    | some previous =>
      if previous.subject ≠ mutation.subject then
        .error (.malformedEntry "audited handle rotation changed its provider subject")
      else if previous.pubkey = mutation.pubkey then
        .error (.malformedEntry "audited handle rotation did not change its key")
      else if previous.logIndex ≥ mutation.logIndex then
        .error (.malformedEntry "audited handle rotation did not advance its log index")
      else .ok ()
  | _ => .error (.malformedEntry "handle projection received a non-handle mutation")

/-- A transactional sink of handle mutations. An operation that fails ends the audit,
so it returns no store. -/
class HandleProjectionStore (P : Type) where
  reset : P → Except RegistryError P
  beginSegment : P → Except RegistryError P
  commitSegment : P → Except RegistryError P
  rollbackSegment : P → Except RegistryError P
  apply : P → AuditedHandleMutation → Except RegistryError P
  binding : P → Handle → Except RegistryError (Option AuditedHandleBinding)

/-! ## The projection in memory -/

structure InMemoryHandleProjection where
  bindings : HashMap Bytes AuditedHandleBinding
  /-- What each handle held before its first mutation in the active segment. -/
  segmentUndo : Option (HashMap Bytes (Option AuditedHandleBinding))

namespace InMemoryHandleProjection

def empty : InMemoryHandleProjection := ⟨∅, none⟩

def reset (_ : InMemoryHandleProjection) : Except RegistryError InMemoryHandleProjection :=
  .ok ⟨∅, none⟩

variable (p : InMemoryHandleProjection)

def beginSegment : Except RegistryError InMemoryHandleProjection :=
  if p.segmentUndo.isSome then
    .error (.invalidConfiguration "handle projection segment is already active")
  else .ok { p with segmentUndo := some ∅ }

def commitSegment : Except RegistryError InMemoryHandleProjection :=
  match p.segmentUndo with
  | none => .error (.invalidConfiguration "handle projection segment is not active")
  | some _ => .ok { p with segmentUndo := none }

/-- One turn of the loop in `rollback_segment`. -/
def restore (bindings : HashMap Bytes AuditedHandleBinding)
    (saved : (_ : Bytes) × Option AuditedHandleBinding) : HashMap Bytes AuditedHandleBinding :=
  match saved.2 with
  | some binding => bindings.insert saved.1 binding
  | none => bindings.erase saved.1

def rollbackSegment : Except RegistryError InMemoryHandleProjection :=
  match p.segmentUndo with
  | none => .error (.invalidConfiguration "handle projection segment is not active")
  | some undo => .ok ⟨undo.entries.foldl restore p.bindings, none⟩

/-- Remembers what a handle held, unless the segment already touched it. -/
def remember (undo : HashMap Bytes (Option AuditedHandleBinding)) (handle : Bytes)
    (previous : Option AuditedHandleBinding) : HashMap Bytes (Option AuditedHandleBinding) :=
  if (undo.lookup handle).isSome then undo else undo.insert handle previous

def apply (mutation : AuditedHandleMutation) :
    Except RegistryError InMemoryHandleProjection := do
  let previous := p.bindings.lookup mutation.handle
  validateHandleTransition previous mutation
  return { bindings := p.bindings.insert mutation.handle mutation.binding
           segmentUndo := p.segmentUndo.map fun undo => remember undo mutation.handle previous }

def binding (handle : Handle) : Except RegistryError (Option AuditedHandleBinding) :=
  .ok (p.bindings.lookup handle.asPath)

instance : HandleProjectionStore InMemoryHandleProjection where
  reset := reset
  beginSegment := beginSegment
  commitSegment := commitSegment
  rollbackSegment := rollbackSegment
  apply := apply
  binding := binding

end InMemoryHandleProjection

/-! ## Compliance keys -/

structure AuditedComplianceKey where
  publication : ComplianceKeyPublish
  publicKey : Bytes
  logIndex : ℕ

def auditedComplianceKey (publication : ComplianceKeyPublish) (logIndex : ℕ) :
    Except RegistryError AuditedComplianceKey := do
  let _ ← publication.keyId.encode.mapError fun e => .malformedEntry e.toText
  match parseHex32 publication.publicKey with
  | none => throw (.malformedEntry "compliance public key is not canonical hex")
  | some publicKey =>
    if publicKey = List.replicate 32 0
        ∨ validateComplianceEpoch publication.keyId publication.notBeforeMs
          publication.notAfterMs ≠ .ok () then
      throw (.malformedEntry "compliance key has an invalid publication interval")
    return ⟨publication, publicKey, logIndex⟩

/-- The state machine of one compliance key. -/
def validateComplianceTransition (previous : Option AuditedComplianceKey)
    (next : AuditedComplianceKey) : Except RegistryError Unit :=
  match previous with
  | none =>
    if next.publication.status = .active then .ok ()
    else .error (.malformedEntry
      "an audited compliance key must be published active before status changes")
  | some previous =>
    if next.logIndex ≤ previous.logIndex
        ∨ next.publicKey ≠ previous.publicKey
        ∨ next.publication.notBeforeMs ≠ previous.publication.notBeforeMs
        ∨ next.publication.notAfterMs ≠ previous.publication.notAfterMs
        ∨ next.publication.status.tag ≤ previous.publication.status.tag
        ∨ ¬(next.publication.status = .retired ∨ next.publication.status = .revoked) then
      .error (.malformedEntry "audited compliance-key status transition is invalid")
    else .ok ()

/-! ## The two auditors -/

class AuditAccumulator (A : Type) where
  append : Primitives → A → LogEntry → ℕ → Except RegistryError A

/-- The loop over the entries of one page, from the index of its first. -/
def appendEntries {A : Type} [AuditAccumulator A] (prim : Primitives) :
    A → ℕ → List LogEntry → Except RegistryError A
  | acc, _, [] => .ok acc
  | acc, index, entry :: rest => do
    let acc ← AuditAccumulator.append prim acc entry index
    appendEntries prim acc (index + 1) rest

theorem appendEntries_append {A : Type} [AuditAccumulator A] {prim : Primitives} (acc : A)
    (index : ℕ) (xs ys : List LogEntry) :
    appendEntries prim acc index (xs ++ ys) =
      (appendEntries prim acc index xs >>= fun acc =>
        appendEntries prim acc (index + xs.length) ys) := by
  induction xs generalizing acc index with
  | nil => rfl
  | cons _ _ ih =>
    simp only [List.cons_append, appendEntries, bind_assoc, ih, List.length_cons,
      Nat.add_assoc, Nat.add_comm 1]

section Auditors

variable {H : Type} [Sha256 H]

/-- The common head of both auditors: the entry must be the next leaf. -/
def appendLeaf (prim : Primitives) (frontier : MerkleFrontier H) (entry : LogEntry)
    (index : ℕ) : Except RegistryError (MerkleFrontier H) := do
  if entry.seq.toNat ≠ index then
    throw (.malformedEntry "registry audit changed a log sequence")
  let leaf ← (entry.leafBytes prim).mapError RegistryError.malformedEntry
  match frontier.append leaf with
  | some (frontier, appended) =>
    if appended ≠ index then
      throw (.malformedCheckpoint "registry audit frontier is malformed")
    return frontier
  | none => throw (.malformedCheckpoint "registry audit frontier is malformed")

structure ComplianceAuditAccumulator (H : Type) where
  frontier : MerkleFrontier H
  keys : HashMap ComplianceKeyId AuditedComplianceKey

def appendAuditedEntry (prim : Primitives) (acc : ComplianceAuditAccumulator H)
    (entry : LogEntry) (index : ℕ) : Except RegistryError (ComplianceAuditAccumulator H) := do
  let frontier ← appendLeaf prim acc.frontier entry index
  match entry.compliancePublication with
  | none => return { acc with frontier }
  | some publication =>
    let audited ← auditedComplianceKey publication index
    validateComplianceTransition (acc.keys.lookup publication.keyId) audited
    if (acc.keys.lookup publication.keyId).isNone ∧ acc.keys.keys.length ≥ maxComplianceKeys then
      throw (.malformedEntry "audited compliance-key state exceeds the configured bound")
    return ⟨frontier, acc.keys.insert publication.keyId audited⟩

instance : AuditAccumulator (ComplianceAuditAccumulator H) where
  append := appendAuditedEntry

structure HandleAuditAccumulator (H P : Type) where
  frontier : MerkleFrontier H
  projection : P
  requestedPath : Bytes
  targetBinding : Option AuditedHandleBinding

variable {P : Type} [HandleProjectionStore P]

/-- The mutation of a handle entry. Retired spellings stay part of the root but are
not projected. -/
def auditedMutation (prim : Primitives) (entry : LogEntry) (index : ℕ) :
    Except RegistryError (Option AuditedHandleMutation) :=
  match entry.handleBinding with
  | none => .ok none
  | some payload =>
    match Handle.parse payload.handle with
    | .error _ => .ok none
    | .ok _ =>
      match parseHex32 payload.pubkey with
      | none => .error (.malformedEntry "handle key is not canonical hex")
      | some pubkey =>
        if prim.verifyingKeyFromBytes pubkey then
          .ok (some ⟨entry.kind, payload.handle, pubkey, payload.subject, index⟩)
        else .error (.malformedEntry "handle key is invalid")

def updateTarget (requested : Bytes) (target : Option AuditedHandleBinding)
    (mutation : AuditedHandleMutation) : Except RegistryError (Option AuditedHandleBinding) :=
  if mutation.handle = requested then do
    validateHandleTransition target mutation
    return some mutation.binding
  else .ok target

def appendHandleAuditedEntry (prim : Primitives) (acc : HandleAuditAccumulator H P)
    (entry : LogEntry) (index : ℕ) : Except RegistryError (HandleAuditAccumulator H P) := do
  let frontier ← appendLeaf prim acc.frontier entry index
  match ← auditedMutation prim entry index with
  | none => return { acc with frontier }
  | some mutation =>
    let targetBinding ← updateTarget acc.requestedPath acc.targetBinding mutation
    let projection ← HandleProjectionStore.apply acc.projection mutation
    return { acc with frontier, projection, targetBinding }

instance : AuditAccumulator (HandleAuditAccumulator H P) where
  append := appendHandleAuditedEntry

end Auditors

end Pigeonpost
