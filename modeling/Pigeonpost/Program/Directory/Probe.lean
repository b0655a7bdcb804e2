import Pigeonpost.Program.Directory.Mutation

/-! # Probing lofts (`pigeonpost-directory/src/directory.rs`) -/

namespace Pigeonpost.Directory

variable {H F : Type}

inductive RetentionUpdate where
  | created (recipientSeed eventId : Bytes) (publishedAt : ℕ)
  | checked (checkedAt : ℕ) (rotate : Bool)

/-! ## Leasing candidates -/

/-- One due endpoint or claim of the union that `claim_probe_candidates` selects from. -/
structure ProbeCandidate (F : Type) where
  endpoint : Bytes
  loftPubkey : Bytes
  entry : DirectoryEntry F
  candidate : Bool
  nextProbeAt : ℕ
  lastProbe : ℕ

/-- `ORDER BY next_probe_at, last_probe, endpoint, loft_pubkey`. -/
def ProbeCandidate.before (a b : ProbeCandidate F) : Bool :=
  ((compare a.nextProbeAt b.nextProbeAt).then
    ((compare a.lastProbe b.lastProbe).then
      ((compare a.endpoint b.endpoint).then (compare a.loftPubkey b.loftPubkey)))).isLE

variable (db : Directory H F)

def dueCandidates (now : ℕ) : List (ProbeCandidate F) :=
  (db.lofts.rows.filter fun row =>
      row.state ≠ .removed && row.nextProbeAt ≤ now && !db.reserved row.endpoint).map
    (fun row => ⟨row.endpoint, [], row.entry, false, row.nextProbeAt, row.lastProbe⟩)
  ++ (db.pendingClaims.rows.filter fun row =>
      row.nextProbeAt ≤ now && !db.reserved row.endpoint).map
    fun row => ⟨row.endpoint, row.loftPubkey, row.entry, true, row.nextProbeAt, 0⟩

def lease (leaseUntil : ℕ) (db : Directory H F) (selected : ProbeCandidate F) : Directory H F :=
  if selected.candidate then
    { db with
      pendingClaims := db.pendingClaims.modify (selected.endpoint, selected.loftPubkey)
        (fun row => { row with nextProbeAt := leaseUntil }) fun _ => rfl }
  else
    { db with
      lofts := db.lofts.modify selected.endpoint
        (fun row => { row with nextProbeAt := leaseUntil }) fun _ => rfl }

def claimProbeCandidates (now limit : ℕ) :
    Except DirectoryError (Directory H F × List (DirectoryEntry F)) := do
  let nowSql ← sqlU64 now "probe claim time"
  let leaseUntil ← sqlU64 (now + probeIntervalSecs) "probe lease time"
  let limit := max 1 (min limit maxProbeCandidates)
  let db ← db.expirePending now
  let db ← db.expirePendingClaims now
  let selected := ((db.dueCandidates nowSql).mergeSort ProbeCandidate.before).take limit
  return (selected.foldl (lease leaseUntil) db, selected.map ProbeCandidate.entry)

/-! ## Recording a result -/

section Record

variable [F64 F]

/-- The result as it is stored: stamped with the directory's clock, and unhealthy
when the utilization is no fraction. -/
def storedResult (result : ProbeResult F) (now : ℕ) : ProbeResult F :=
  let stored := { result with probedAt := now }
  if !F64.isFinite stored.utilization
      || !(F64.le F64.zero stored.utilization && F64.le stored.utilization F64.one) then
    { stored with
      utilization := F64.one
      storedAndReturned := false
      detail := some "loft returned invalid utilization" }
  else stored

/-- What a bound result is recorded on. -/
inductive ProbeTarget (H F : Type) where
  /-- The result is stale; the database as it is committed. -/
  | stale (db : Directory H F)
  | failedCandidate (db : Directory H F)
  /-- The row under the probed key. -/
  | row (db : Directory H F) (row : LoftRow F)

/-- The winning candidate in place of the unproven claim before it. -/
def winningRow (old : LoftRow F) (candidate : DirectoryEntry F) (now : ℕ) : LoftRow F :=
  { old with
    entry := asCandidate candidate
    state := .pending
    firstSeen := now
    lastProbe := 0
    failStreak := 0
    probesOk := 0
    probesTotal := 0
    degradedAt := none
    drainAfter := none
    mutationSequence := candidate.sequence.toNat
    cleanSince := none
    nextProbeAt := now
    ownershipProven := false }

/-- The first half of `record_probe_inner` for a result bound to a leased claim. -/
def probeTarget (endpoint : Bytes) (healthy : Bool) (now : ℕ)
    (expectedPubkey : Bytes) (expectedSequence : UInt64) :
    Except DirectoryError (ProbeTarget H F) := do
  let db ← db.expirePending now
  let db ← db.expirePendingClaims now
  if db.reserved endpoint then return .stale db
  let row ← okOr (db.lofts.lookup endpoint) .notFound
  if row.entry.pubkey = expectedPubkey ∧ row.entry.sequence = expectedSequence then
    return .row db row
  let sequence ← sqlU64 expectedSequence.toNat "expected candidate sequence"
  match (db.pendingClaims.lookup (endpoint, expectedPubkey)).filter
      fun claim => claim.mutationSequence == sequence with
  | none => return .stale db
  | some claim =>
    if row.ownershipProven then
      return .stale { db with
        pendingClaims := db.pendingClaims.delete fun row => row.endpoint = endpoint }
    if !healthy then return .failedCandidate db
    let candidate := claim.entry
    if candidate.pubkey ≠ expectedPubkey ∨ candidate.sequence ≠ expectedSequence then
      throw (.malformed "pending claim key or sequence disagrees with its projection")
    let _ ← sqlU64 candidate.sequence.toNat "winning candidate sequence"
    return .row
      { db with
        lofts := db.lofts.modify endpoint (fun old => winningRow old candidate now)
          fun _ => rfl
        probes := db.probes.filter fun probe => probe.endpoint ≠ endpoint
        retentionCanaries := db.retentionCanaries.delete fun canary =>
          canary.endpoint = endpoint
        pendingClaims := db.pendingClaims.delete fun row => row.endpoint = endpoint }
      (winningRow row candidate now)

def isPublic (row : LoftRow F) : Bool :=
  row.state == .active || row.state == .degraded || row.state == .draining

/-- The lifecycle: the next state, `degraded_at` and `clean_since`. -/
def nextState (row : LoftRow F) (healthy : Bool) (failStreak now : ℕ) :
    LoftState × Option ℕ × Option ℕ :=
  match row.state with
  | .draining =>
    if row.drainAfter.any fun after => after ≤ now then (.removed, some now, none)
    else (.draining, row.degradedAt, none)
  | .removed => (.removed, row.degradedAt, none)
  | .pending =>
    if now - row.firstSeen ≥ pendingExpireSecs then (.removed, some now, none)
    else if healthy then
      let cleanSince := row.cleanSince.getD now
      if now - cleanSince ≥ promoteAfterSecs then
        if db.lofts.count isPublic < maxPublicEntries then (.active, none, none)
        else (.pending, none, some cleanSince)
      else (.pending, none, some cleanSince)
    else (.pending, none, none)
  | .active =>
    if failStreak ≥ degradeAfterFailures then (.degraded, some now, none)
    else (.active, none, none)
  | .degraded =>
    if healthy then (.active, none, none)
    else if row.degradedAt.any fun degradedAt => now - degradedAt ≥ removeAfterSecs then
      (.removed, row.degradedAt, none)
    else (.degraded, row.degradedAt, none)

def probedRow (result : ProbeResult F) (failStreak probesOk probesTotal now : ℕ)
    (next : LoftState × Option ℕ × Option ℕ) (row : LoftRow F) : LoftRow F :=
  { row with
    entry := { row.entry with
      state := next.1
      utilization := result.utilization
      health :=
        { uptime30d := if probesTotal = 0 then F64.one else F64.ratio probesOk probesTotal
          probeFailStreak := min failStreak (2 ^ 32 - 1)
          lastProbe := now } }
    state := next.1
    lastProbe := now
    failStreak := failStreak
    probesOk := probesOk
    probesTotal := probesTotal
    degradedAt := next.2.1
    cleanSince := next.2.2
    nextProbeAt := now + probeIntervalSecs
    ownershipProven := result.healthy || row.ownershipProven }

def applyRetentionUpdate (canaries : KeyedTable RetentionCanaryRow.endpoint)
    (endpoint : Bytes) : Option RetentionUpdate →
    Except DirectoryError (KeyedTable RetentionCanaryRow.endpoint)
  | some (.created recipientSeed eventId publishedAt) => do
    let publishedAt ← sqlU64 publishedAt "canary publication time"
    return canaries.insertOrModify ⟨endpoint, recipientSeed, eventId, publishedAt, 0⟩
      id fun _ => rfl
  | some (.checked checkedAt rotate) =>
    if rotate then .ok (canaries.delete fun canary => canary.endpoint = endpoint)
    else do
      let checkedAt ← sqlU64 checkedAt "canary check time"
      return canaries.modify endpoint (fun row => { row with lastCheckedAt := checkedAt })
        fun _ => rfl
  | none => .ok canaries

/-- The second half of `record_probe_inner`: the result enters `probes` and moves the row. -/
def recordOn (row : LoftRow F) (result : ProbeResult F) (now : ℕ)
    (retentionUpdate : Option RetentionUpdate) :
    Except DirectoryError (Directory H F × LoftState) := do
  let healthy := result.healthy
  let cutoff := now - probeRetentionSecs
  let recordedRow : ProbeRow F := ⟨result.endpoint, now, result, healthy⟩
  let probes := (db.probes ++ [recordedRow]).filter fun probe => cutoff ≤ probe.probedAt
  let failStreak := if healthy then 0 else min (row.failStreak + 1) i64Max
  let counted := fun probe : ProbeRow F =>
    probe.endpoint = result.endpoint && cutoff ≤ probe.probedAt
  let next := db.nextState row healthy failStreak now
  let _ ← sqlU64 (now + probeIntervalSecs) "next probe time"
  let retentionCanaries ←
    applyRetentionUpdate db.retentionCanaries result.endpoint retentionUpdate
  let recorded := { db with
    lofts := db.lofts.modify result.endpoint
      (probedRow result failStreak (probes.countP fun probe => counted probe && probe.healthy)
        (probes.countP counted) now next)
      fun _ => rfl
    pendingClaims :=
      if healthy then db.pendingClaims.delete fun claim => claim.endpoint = result.endpoint
      else db.pendingClaims
    probes := probes
    retentionCanaries := retentionCanaries }
  return (recorded, next.1)

def recordClaimProbeWithRetention (result : ProbeResult F) (now : ℕ)
    (retentionUpdate : Option RetentionUpdate) (expectedPubkey : Bytes)
    (expectedSequence : UInt64) :
    Except DirectoryError (Directory H F × Option LoftState) := do
  let stored := storedResult result now
  let now ← sqlU64 now "probe time"
  match ← db.probeTarget stored.endpoint stored.healthy now expectedPubkey
      expectedSequence with
  | .stale db => return (db, none)
  | .failedCandidate db => return (db, some .pending)
  | .row db row =>
    let (db, next) ← db.recordOn row stored now retentionUpdate
    return (db, some next)

end Record

/-! ## The public snapshot -/

def entries : Except DirectoryError (List (DirectoryEntry F)) :=
  let rows := ((db.lofts.rows.filter isPublic).mergeSort fun a b =>
    (compare a.endpoint b.endpoint).isLE).take (maxPublicEntries + 1)
  if rows.length > maxPublicEntries then .error .responseTooLarge
  else .ok (rows.map LoftRow.entry)

end Pigeonpost.Directory
