import Pigeonpost.Library.Machine
import Pigeonpost.Program.Directory.Probe
import Pigeonpost.Verification.Directory.Submission

/-! # Changes of the directory database

Every operation is a chain of a few kinds of changes. What holds of the database is
proved for each kind once. -/

namespace Pigeonpost.Directory

open KeyedTable

variable {H F : Type}

/-! ## Operations -/

/-- A mutation as it is reserved and finalized. -/
inductive LoftMutation (F : Type) where
  | add (entry : DirectoryEntry F)
  | drain (authorization : DrainAuthorization)

namespace LoftMutation

def endpoint : LoftMutation F → Bytes
  | add entry => entry.endpoint
  | drain authorization => authorization.endpoint

def operation : LoftMutation F → ReservationOperation
  | add _ => .add
  | drain _ => .drain

def request (json : DirectoryJson F) : LoftMutation F → Bytes
  | add entry => json.entry entry
  | drain authorization => json.authorization authorization

end LoftMutation

/-- The writing operations with their arguments and clock readings. The expiry sweep, with
which most of them start, is also one of its own. -/
inductive DirectoryOp (H F : Type) where
  | reserve (mutation : LoftMutation F) (now : ℕ)
  | finalize (mutation : LoftMutation F) (checkpoint : PersistedRegistryCheckpoint H)
  | claimProbeCandidates (now limit : ℕ)
  | recordClaimProbe (result : ProbeResult F) (now : ℕ)
    (retentionUpdate : Option RetentionUpdate) (expectedPubkey : Bytes)
    (expectedSequence : UInt64)
  | expire (now : ℕ)

def keyOf (pubkey : Bytes) : Option Bytes := parseHex pubkey 32

/-- A probe as it was recorded: on which endpoint and key, when, and how it went. -/
structure RecordedProbe where
  endpoint : Bytes
  key : Option Bytes
  probedAt : ℕ
  healthy : Bool

section Execute

variable [Sha256 H] [DecidableEq H] [F64 F] (ctx : DirectoryContext F)

def execute (db : Directory H F) : DirectoryOp H F → Except DirectoryError (Directory H F)
  | .reserve (.add entry) now => (reserveAdd ctx db entry now).map Prod.fst
  | .reserve (.drain authorization) now => (reserveDrain ctx db authorization now).map Prod.fst
  | .finalize (.add entry) checkpoint => finalizeAdd ctx db entry checkpoint
  | .finalize (.drain authorization) checkpoint => finalizeDrain ctx db authorization checkpoint
  | .claimProbeCandidates now limit => (db.claimProbeCandidates now limit).map Prod.fst
  | .recordClaimProbe result now retentionUpdate expectedPubkey expectedSequence =>
    (db.recordClaimProbeWithRetention result now retentionUpdate expectedPubkey
      expectedSequence).map Prod.fst
  | .expire now => do
    let db ← db.expirePending now
    db.expirePendingClaims now

def recorded (db : Directory H F) : DirectoryOp H F → List RecordedProbe
  | .recordClaimProbe result now _ expectedPubkey expectedSequence =>
    let stored := storedResult result now
    match db.probeTarget stored.endpoint stored.healthy now expectedPubkey
        expectedSequence with
    | .ok (.row _ row) => [⟨stored.endpoint, keyOf row.entry.pubkey, now, stored.healthy⟩]
    | _ => []
  | _ => []

/-- One transaction: a failed one leaves the database and records nothing. -/
def directoryStep (db : Directory H F) (op : DirectoryOp H F) :
    Directory H F × List RecordedProbe :=
  match execute ctx db op with
  | .ok db' => (db', recorded db op)
  | .error _ => (db, [])

def run (start : Directory H F) (ops : List (DirectoryOp H F)) :
    Directory H F × List RecordedProbe :=
  Machine.run (directoryStep ctx) start ops

end Execute

/-! ## Kinds of changes -/

/-- What bookkeeping does to a row: nothing, a later probe, or the end of a pending one. A
reserved endpoint is left alone. -/
inductive SweptRow (db : Directory H F) (row : LoftRow F) : LoftRow F → Prop
  | kept : SweptRow db row row
  | leased (t : ℕ) : db.reserved row.endpoint = false →
    SweptRow db row { row with nextProbeAt := t }
  | expired (t : ℕ) : db.reserved row.endpoint = false → row.state = .pending →
    SweptRow db row (expireLoft t row)

/-- Rows are aged, and no reserved endpoint is touched. -/
structure Sweeps (db db' : Directory H F) : Prop where
  lofts : ∃ (g : LoftRow F → LoftRow F) (hg : ∀ row, (g row).endpoint = row.endpoint),
    db'.lofts = db.lofts.update g hg ∧ ∀ row, SweptRow db row (g row)
  pendingClaims_le : db'.pendingClaims.count (fun _ => true) ≤ db.pendingClaims.count fun _ => true
  pendingClaims_lookup : ∀ endpoint pubkey, db.reserved endpoint = true →
    db'.pendingClaims.lookup (endpoint, pubkey) = db.pendingClaims.lookup (endpoint, pubkey)
  reservations : db'.reservations = db.reservations
  registryCheckpoint : db'.registryCheckpoint = db.registryCheckpoint

/-- The row is the one a mutation is reserved with. -/
structure Exact [Sha256 H] (json : DirectoryJson F) (mutation : LoftMutation F)
    (canonical pubkey : Bytes) (sequence : ℕ) (row : ReservationRow H) : Prop where
  endpoint : row.endpoint = mutation.endpoint
  operation : row.operation = mutation.operation
  loftPubkey : row.loftPubkey = pubkey
  mutationSequence : row.mutationSequence = sequence
  canonicalMutation : row.canonicalMutation = canonical
  localRequest : row.localRequest = mutation.request json
  id : row.reservationId = reservationId mutation.operation canonical (mutation.request json)
  boundedMutation : boundedMutationBytes canonical = .ok canonical
  boundedRequest : boundedLocalRequest (mutation.request json) = .ok (mutation.request json)

section Changes

variable [Sha256 H] [DecidableEq H] [F64 F] (ctx : DirectoryContext F)

/-- A reservation row and the projection it promises. -/
def Reserves (db : Directory H F) (row : ReservationRow H) : LoftMutation F → Prop
  | .add entry => Accepts ctx.prim entry ∧
    (∃ addition, entry.registryAddition ctx.prim = .ok addition ∧
      Exact ctx.json (.add entry) (ctx.json.addition addition) entry.pubkey
        entry.sequence.toNat row) ∧
    ∃ effect, Decides ctx.prim (db.lofts.lookup entry.endpoint)
      (db.pendingClaims.lookup (entry.endpoint, entry.pubkey)) entry row.reservedAt effect
      row.capacitySlot
  | .drain authorization =>
    (authorization.sequence.toNat ≤ i64Max ∧ authorization.after.toNat ≤ i64Max) ∧
    (∃ loft, db.lofts.lookup authorization.endpoint = some loft ∧
      Exact ctx.json (.drain authorization)
        (ctx.json.removal (authorization.registryRemoval loft.entry.pubkey))
        loft.entry.pubkey authorization.sequence.toNat row) ∧
    (∃ effect, DrainDecides ctx.prim (db.lofts.lookup authorization.endpoint) authorization
      effect) ∧
    row.capacitySlot = false

/-- The kinds of changes, each with the operation it can be part of. -/
inductive Change (op : DirectoryOp H F) (db db' : Directory H F) : Prop
  | sweep : Sweeps db db' → Change op db db'
  | reserve (mutation : LoftMutation F) (now : ℕ) (row : ReservationRow H) :
    op = .reserve mutation now → db.reservations.lookup row.endpoint = none →
    (∀ old ∈ db.reservations.rows, old.reservationId ≠ row.reservationId) →
    Reserves ctx db row mutation →
    (row.capacitySlot = true → db.pendingLoad < maxPendingEntries) →
    db' = { db with reservations := db.reservations.put row } → Change op db db'
  | consume (mutation : LoftMutation F) (checkpoint : PersistedRegistryCheckpoint H)
    (row : ReservationRow H) :
    op = .finalize mutation checkpoint →
    db.reservations.lookup mutation.endpoint = some row →
    row.operation = mutation.operation → row.localRequest = mutation.request ctx.json →
    db' = { db with
      reservations := db.reservations.delete fun old =>
        old.reservationId = row.reservationId } → Change op db db'
  | submit (entry : DirectoryEntry F) (checkpoint : PersistedRegistryCheckpoint H) (now : ℕ)
    (effect : SubmissionEffect F) (slot : Bool) :
    op = .finalize (.add entry) checkpoint → db.reserved entry.endpoint = false →
    Accepts ctx.prim entry →
    Decides ctx.prim (db.lofts.lookup entry.endpoint)
      (db.pendingClaims.lookup (entry.endpoint, entry.pubkey)) entry now effect slot →
    (slot = true → db.pendingLoad < maxPendingEntries) → Performs effect db db' →
    Change op db db'
  | drain (authorization : DrainAuthorization) (checkpoint : PersistedRegistryCheckpoint H)
    (row : LoftRow F) :
    op = .finalize (.drain authorization) checkpoint →
    db.reserved authorization.endpoint = false →
    DrainDecides ctx.prim (db.lofts.lookup authorization.endpoint) authorization (some row) →
    db' = { db with lofts := db.lofts.put row } → Change op db db'
  | accept (checkpoint : PersistedRegistryCheckpoint H) :
    validatePersistedCheckpoint checkpoint = .ok () →
    db' = { db with registryCheckpoint := some checkpoint } → Change op db db'
  | dropClaims (endpoint : Bytes) : db.reserved endpoint = false →
    db' = { db with
      pendingClaims := db.pendingClaims.delete fun row => row.endpoint = endpoint } →
    Change op db db'
  | win (endpoint : Bytes) (now : ℕ) (row : LoftRow F) (claim : PendingClaimRow F) :
    db.reserved endpoint = false → db.lofts.lookup endpoint = some row →
    row.ownershipProven = false → claim ∈ db.pendingClaims.rows → claim.endpoint = endpoint →
    db'.lofts = db.lofts.put (winningRow row claim.entry now) →
    db'.pendingClaims = db.pendingClaims.delete (fun row => row.endpoint = endpoint) →
    db'.reservations = db.reservations → db'.registryCheckpoint = db.registryCheckpoint →
    Change op db db'
  | record (result : ProbeResult F) (now : ℕ) (retentionUpdate : Option RetentionUpdate)
    (expectedPubkey : Bytes) (expectedSequence : UInt64) (row : LoftRow F)
    (failStreak probesOk probesTotal : ℕ) :
    op = .recordClaimProbe result now retentionUpdate expectedPubkey expectedSequence →
    db.reserved result.endpoint = false → db.lofts.lookup result.endpoint = some row →
    row.entry.pubkey = expectedPubkey → row.entry.sequence = expectedSequence →
    db'.lofts = db.lofts.put (probedRow (storedResult result now) failStreak probesOk
      probesTotal now
      (db.nextState row (storedResult result now).healthy failStreak now) row) →
    db'.pendingClaims.count (fun _ => true) ≤ db.pendingClaims.count (fun _ => true) →
    (∀ endpoint pubkey, endpoint ≠ result.endpoint → db'.pendingClaims.lookup (endpoint, pubkey) =
        db.pendingClaims.lookup (endpoint, pubkey)) →
    db'.reservations = db.reservations → db'.registryCheckpoint = db.registryCheckpoint →
    Change op db db'

end Changes

/-! ## The pending load -/

section Load

variable {prim : Primitives} {db db' : Directory H F}

/-- The state column says what the stored entry says. -/
def StatesAgree (db : Directory H F) : Prop := ∀ row ∈ db.lofts.rows, row.state = row.entry.state

theorem StatesAgree.of_lookup {endpoint : Bytes} {row : LoftRow F} (h : db.StatesAgree)
    (hl : db.lofts.lookup endpoint = some row) : row.state = row.entry.state :=
  h row (lookup_eq_some.mp hl).1

/-- A submission takes exactly the place it asked for. -/
theorem pendingLoad_of_performs [F64 F] {entry : DirectoryEntry F} {now : ℕ}
    {effect : SubmissionEffect F} {slot : Bool} (hs : db.StatesAgree)
    (hd : Decides prim (db.lofts.lookup entry.endpoint)
      (db.pendingClaims.lookup (entry.endpoint, entry.pubkey)) entry now effect slot)
    (hp : Performs effect db db') :
    db'.pendingLoad = db.pendingLoad + if slot then 1 else 0 := by
  unfold pendingLoad
  rw [hp.reservations, hp.lofts, hp.pendingClaims]
  cases hd with
  | retry => rfl
  | retryClaim => rfl
  | revise row hl =>
    have hc : (db.lofts.put (revisedRow entry entry.sequence.toNat row)).count
        (fun row => row.state == .pending) = _ := count_put_eq (lookup_own hl rfl) rfl
    simp only [hc]
    rfl
  | reenroll row hl _ _ hstate =>
    have hr : row.state = .removed := (hs.of_lookup hl).trans hstate
    have hc : (db.lofts.put (reenrolledRow entry entry.sequence.toNat now row)).count
        (fun row => row.state == .pending) = _ :=
      count_put_succ (lookup_own hl rfl) (by simp [hr]) rfl
    simp only [hc, if_true]
    omega
  | reviseClaim _ old _ _ _ hclaim =>
    have hc : (db.pendingClaims.put (revisedClaim entry entry.sequence.toNat old)).count
        (fun _ => true) = _ := count_put_eq (lookup_own hclaim rfl) rfl
    simp only [hc]
    rfl
  | openClaim _ _ _ _ hclaim =>
    have hc : (db.pendingClaims.put (openedClaim entry entry.sequence.toNat now)).count
        (fun _ => true) = _ := count_put_of_none hclaim
    simp only [hc, if_true]
    omega
  | first hl =>
    have hc : (db.lofts.put (openedRow entry entry.sequence.toNat now)).count
        (fun row => row.state == .pending) = _ := count_put_of_none hl
    have hpen : ((openedRow entry entry.sequence.toNat now).state == .pending) = true := rfl
    simp only [hc, hpen, if_true]
    omega

end Load

/-! ## Sweeps -/

section Sweeps

variable {db db' : Directory H F} {now : ℕ}

theorem Sweeps.reserved (h : Sweeps db db') (endpoint : Bytes) :
    db'.reserved endpoint = db.reserved endpoint := by
  rw [Directory.reserved, h.reservations, Directory.reserved]

theorem sweeps_claims {claims : KeyedTable (PendingClaimRow.key (F := F))}
    (hc : claims.count (fun _ => true) ≤ db.pendingClaims.count fun _ => true)
    (hl : ∀ endpoint pubkey, db.reserved endpoint = true →
      claims.lookup (endpoint, pubkey) = db.pendingClaims.lookup (endpoint, pubkey)) :
    Sweeps db { db with pendingClaims := claims } :=
  ⟨⟨id, fun _ => rfl, by simp [update], fun _ => .kept⟩, hc, hl, rfl, rfl⟩

theorem sweeps_expirePending (h : db.expirePending now = .ok db') : Sweeps db db' := by
  unfold expirePending at h
  split at h
  · cases h
    exact sweeps_claims le_rfl fun _ _ _ => rfl
  · simp only [ok_iff, sqlU64_eq_ok] at h
    obtain ⟨cutoff, -, removedAt, -, rfl⟩ := h
    refine ⟨⟨_, fun row => by split <;> rfl, rfl, fun row => ?_⟩, le_rfl, fun _ _ _ => rfl, rfl,
      rfl⟩
    split
    · rename_i he
      simp only [loftExpired, Bool.and_eq_true, beq_iff_eq, Bool.not_eq_true'] at he
      exact .expired removedAt he.2 he.1.1
    · exact .kept

/-- The claims on an endpoint stay when none of them is among those that go. -/
theorem lookup_delete_claims {claims : KeyedTable (PendingClaimRow.key (F := F))}
    {endpoint pubkey : Bytes} {gone : PendingClaimRow F → Bool}
    (hg : ∀ row, row.endpoint = endpoint → gone row = false) :
    (claims.delete gone).lookup (endpoint, pubkey) = claims.lookup (endpoint, pubkey) := by
  rw [lookup_delete]
  cases hl : claims.lookup (endpoint, pubkey) with
  | none => rfl
  | some claim => simp [Option.filter_some, hg claim (congrArg Prod.fst (key_of_lookup hl))]

theorem sweeps_expirePendingClaims (h : db.expirePendingClaims now = .ok db') : Sweeps db db' := by
  unfold expirePendingClaims at h
  split at h
  · cases h
    exact sweeps_claims le_rfl fun _ _ _ => rfl
  · simp only [ok_iff, sqlU64_eq_ok] at h
    obtain ⟨cutoff, -, rfl⟩ := h
    refine sweeps_claims ?_ fun endpoint pubkey hr => ?_
    · have hc := count_delete db.pendingClaims
        (fun row => row.firstSeen ≤ cutoff && !db.reserved row.endpoint) fun _ => true
      exact le_of_add_le_left hc.le
    · refine lookup_delete_claims ?_
      rintro row rfl
      simp [hr]

theorem sweeps_lease {t : ℕ} {selected : ProbeCandidate F}
    (hf : db.reserved selected.endpoint = false) : Sweeps db (lease t db selected) := by
  unfold lease
  split
  · refine sweeps_claims ?_ fun endpoint pubkey hr => ?_
    · simp [KeyedTable.modify, KeyedTable.update, KeyedTable.count]
    · refine KeyedTable.lookup_modify_of_ne (by exact fun _ => rfl) fun heq => ?_
      have he : endpoint = selected.endpoint := congrArg Prod.fst heq
      rw [he, hf] at hr
      cases hr
  · refine ⟨⟨_, fun row => by split <;> rfl, rfl, fun row => ?_⟩, le_rfl, fun _ _ _ => rfl, rfl,
      rfl⟩
    split
    · next hk => exact .leased t (hk ▸ hf)
    · exact .kept

theorem StatesAgree.of_sweeps (h : db.StatesAgree) (hs : Sweeps db db') : db'.StatesAgree := by
  obtain ⟨g, hg, hl, hswept⟩ := hs.lofts
  intro row hr
  rw [hl, update, List.mem_map] at hr
  obtain ⟨old, hold, rfl⟩ := hr
  have hr := hswept old
  generalize g old = row at hr ⊢
  cases hr with
  | kept | leased => exact h old hold
  | expired => rfl

end Sweeps

end Pigeonpost.Directory
