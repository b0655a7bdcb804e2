import Pigeonpost.Program.Group.Membership

/-! # The MLS delivery service (`pigeonpost-postbox/src/mls.rs`)

Pending operations, commit acceptance, acknowledgements and pruning. The server sees the
declared adds and removes of a commit, never its content. -/

namespace Pigeonpost.Groups

def maxUnclaimed : ℕ := 100

def maxDevices : ℕ := 10

def claimTtlSecs : ℕ := 600

def handshakeRetentionSecs : ℕ := 90 * 86400

/-! ## Cryptography -/

inductive EnvelopeKind where
  | commit
  | application
deriving DecidableEq

/-- The cleartext header of an envelope. -/
structure EnvelopeInfo where
  kind : EnvelopeKind
  groupId : GroupId
  senderMailbox : Mailbox
  senderDevice : DeviceId
  clientMessageId : Bytes
  epoch : ℕ
deriving DecidableEq

structure KeyPackageInfo where
  mailbox : Mailbox
  deviceId : DeviceId
  signatureKey : Bytes
  lastResort : Bool
  notAfter : ℕ
  keyPackageRef : Bytes

/-- What the server uses of `pigeonpost_groupcrypto`. References are their hexadecimal text. -/
structure GroupCrypto where
  inspectEnvelope : Bytes → Option EnvelopeInfo
  /-- Key, message, signature. -/
  verifyEnvelopeSignature : Bytes → Bytes → Bytes → Bool
  welcomeRecipients : Bytes → Option (List Bytes)
  inspectKeyPackage : Bytes → Option KeyPackageInfo
  hash : Bytes → Bytes

/-! ## Key packages -/

structure KeyPackage where
  ref : Bytes
  mailbox : Mailbox
  deviceId : DeviceId
  lastResort : Bool
  notAfter : ℕ
  createdAt : ℕ
  claimedAt : Option ℕ

structure KpClaim where
  ref : Bytes
  groupId : GroupId
  mailbox : Mailbox
  deviceId : DeviceId
  claimedByMailbox : Mailbox
  claimedByDevice : DeviceId
  claimedAt : ℕ
  usedAt : Option ℕ

structure AddRef where
  mailbox : Mailbox
  deviceId : DeviceId
  keyPackageRef : Bytes

def AddRef.key (a : AddRef) : Mailbox × DeviceId := (a.mailbox, a.deviceId)

/-- The reference as it is compared and stored. -/
def AddRef.ref (a : AddRef) : Bytes := toAsciiLowercase a.keyPackageRef

structure CommitReq where
  epoch : ℕ
  commitId : Bytes
  commit : Bytes
  signature : Bytes
  welcome : Option Bytes
  adds : List AddRef
  removes : List (Mailbox × DeviceId)
  expectedRevision : ℕ

/-! ## Pending operations -/

/-- One operation a member device should commit next. -/
structure Pending where
  mailbox : Mailbox
  deviceId : DeviceId
  since : ℕ

def Pending.key (p : Pending) : Mailbox × DeviceId := (p.mailbox, p.deviceId)

namespace Group

def isLeaf (g : Group) (mailbox : Mailbox) (device : DeviceId) : Bool :=
  (g.leaves.lookup (mailbox, device)).isSome

def isMember (g : Group) (who : Mailbox) : Bool := (g.loadMember who).any fun m => m.state.isLive

def pendingAdds (dir : Directory) (g : Group) : List Pending :=
  if g.deletedAt.isSome then []
  else
    ((dir.devices.rows.filter fun d =>
        d.revokedAt = none ∧ g.isMember d.mailbox ∧ ¬g.isLeaf d.mailbox d.deviceId).map fun d =>
      { mailbox := d.mailbox, deviceId := d.deviceId
        since := max (((g.loadMember d.mailbox).map (·.updatedAt)).getD 0) d.createdAt :
          Pending }).insertionSort fun a b => a.since ≤ b.since

/-- Whether a leaf has to go: its member or its device is gone, or it is stale. -/
def mustGo (dir : Directory) (g : Group) (l : Leaf) : Bool :=
  !g.isMember l.mailbox || (dir.devices.lookup l.key).all (fun d => d.revokedAt.isSome) || l.stale

def pendingRemoves (dir : Directory) (g : Group) : List Pending :=
  (g.leaves.rows.filter (g.mustGo dir)).map fun l => ⟨l.mailbox, l.deviceId, l.addedSeq⟩

/-- A current leaf, or the creator's device while the group is provisioning. -/
def mayCommit (g : Group) (me : Mailbox) (device : DeviceId) : Bool :=
  match g.loadMember me with
  | none => false
  | some m =>
    if g.activationState = .provisioning then m.role == .owner && m.state == .keying
    else m.state == .active && g.isLeaf me device

/-! ## Commits -/

/-- An unused claim of this device, not older than ten minutes. -/
def claimed (claims : List KpClaim) (g : Group) (me : Mailbox) (device : DeviceId) (now : ℕ)
    (a : AddRef) : Bool :=
  claims.any fun c =>
    c.groupId == g.id && c.ref == a.ref && c.mailbox == a.mailbox && c.deviceId == a.deviceId &&
      c.claimedByMailbox == me && c.claimedByDevice == device &&
      decide (c.claimedAt + claimTtlSecs > now) && c.usedAt.isNone

def checkAdds (dir : Directory) (claims : List KpClaim) (g : Group) (me : Mailbox)
    (device : DeviceId) (now : ℕ) : List AddRef → Except GErr Unit
  | [] => .ok ()
  | a :: rest => do
    if ¬(a.key ∈ (g.pendingAdds dir).map Pending.key) ∨ a.key = (me, device) then
      throw (.forbidden "not_permitted" "is not waiting to be added")
    if ¬g.claimed claims me device now a then
      throw (.forbidden "not_permitted"
        "adds must use key packages this device claimed in the last 10 minutes")
    checkAdds dir claims g me device now rest

def checkRemoves (dir : Directory) (g : Group) (me : Mailbox) (device : DeviceId) :
    List (Mailbox × DeviceId) → Except GErr Unit
  | [] => .ok ()
  | r :: rest => do
    if ¬(r ∈ (g.pendingRemoves dir).map Pending.key ∨
        (r.1 = me ∧ r.2 ≠ device ∧ g.isLeaf r.1 r.2)) then
      throw (.forbidden "not_permitted" "is not pending removal; remove the member first")
    checkRemoves dir g me device rest

def addLeaves (seq epoch now : ℕ) : Group → List AddRef → Except GErr Group
  | g, [] => .ok g
  | g, a :: rest => do
    let leaves ← okOr (g.leaves.insert ⟨a.mailbox, a.deviceId, epoch, seq, false, 0, none⟩) .server
    addLeaves seq epoch now { g with
      leaves
      welcomes := g.welcomes ++ [⟨g.welcomes.length, seq, epoch, a.ref, a.mailbox, a.deviceId,
        now, none, none⟩] } rest

/-- `UPDATE group_leaves SET acked_epoch = MAX(acked_epoch, …)`. -/
def ackLeaf (g : Group) (key : Mailbox × DeviceId) (epoch now : ℕ) : Group :=
  { g with
    leaves := g.leaves.modify key
      (fun l => { l with ackedEpoch := max l.ackedEpoch epoch, ackedAt := some now })
      fun _ => rfl }

/-- `UPDATE group_leaves SET stale = 1`. -/
def markStale (g : Group) (key : Mailbox × DeviceId) : Group :=
  { g with leaves := g.leaves.modify key (fun l => { l with stale := true }) fun _ => rfl }

/-- Keying members whose first device is in the tree. -/
def activatable (g : Group) : List Mailbox :=
  (g.members.rows.filter fun m =>
    m.state = .keying ∧ g.leaves.rows.any fun l => l.mailbox = m.member).map (·.member)

/-- A member becomes active, with a fresh interval behind the commit. -/
def activate (seq epoch now : ℕ) (g : Group) (who : Mailbox) : Except GErr Group := do
  let m ← okOr (g.loadMember who) .server
  let version := m.membershipVersion + 1
  -- the primary key of the intervals is the mailbox and this version
  let intervals ← okOr (g.intervals.insert ⟨who, version, seq + 1, none, epoch, none⟩) .server
  return { g.putMember { m with
      state := .active, membershipVersion := version, joinedAt := some now, joinSeq := some seq,
      readCursor := max m.readCursor seq, revision := m.revision + 1, updatedAt := now } with
    intervals }

def activateAll (seq epoch now : ℕ) : Group → List Mailbox → Except GErr Group
  | g, [] => .ok g
  | g, who :: rest => do
    let g ← g.activate seq epoch now who
    activateAll seq epoch now g rest

def noticeJoined (now : ℕ) : Group → List Mailbox → Group
  | g, [] => g
  | g, _ :: rest => noticeJoined now (g.addNotice .memberJoined none now) rest

/-- The invitations of a provisioning group become visible. -/
def releaseAll (me : Mailbox) (now : ℕ) : Group → List MemberRow → Group
  | g, [] => g
  | g, m :: rest => releaseAll me now (g.releaseInvitation (m.invitedBy.getD me) now) rest

def activateGroup (dir : Directory) (me : Mailbox) (now : ℕ) (g : Group) : Group :=
  let g := Group.addNotice { g with activationState := .active } .groupCreated (some me) now
  let g := g.releaseAll me now (g.members.rows.filter fun m => m.state = .invited)
  g.onRoomActivated dir now

/-- The rows the commit itself writes: the handshake, the new epoch, and the leaf table. -/
def commitLeaves (me : Mailbox) (device : DeviceId) (req : CommitReq) (now : ℕ) (g : Group) :
    Except GErr Group := do
  let seq := g.nextSeq
  let epoch := g.epoch + 1
  let handshakes ← okOr (g.handshakes.insert
    { seq, epoch := g.epoch, commitId := req.commitId, sender := me, senderDevice := device
      adds := req.adds.map AddRef.key, removes := req.removes, createdAt := now }) .server
  let leaves := g.leaves.delete fun l => req.removes.contains l.key
  -- the creator's own leaf is not declared; `INSERT OR IGNORE`
  let leaves :=
    if g.activationState = .provisioning then
      (leaves.insert ⟨me, device, epoch, seq, false, epoch, some now⟩).getD leaves
    else leaves
  let g ← addLeaves seq epoch now { g with
    lastSeq := seq, handshakes, epoch, revision := g.revision + 1, leaves } req.adds
  return g.ackLeaf (me, device) epoch now

/-- `apply_commit`: authority, order, declared changes, then the rows. -/
def applyCommit (crypto : GroupCrypto) (dir : Directory) (claims : List KpClaim) (me : Mailbox)
    (device : DeviceId) (req : CommitReq) (now : ℕ) (g : Group) : Except GErr Group := do
  g.live
  if !g.mayCommit me device then
    throw (.forbidden "not_member" "this device cannot change the group's keys")
  let row ← okOr ((dir.devices.lookup (me, device)).filter fun d => d.revokedAt = none) .server
  if !crypto.verifyEnvelopeSignature row.signatureKey req.commit req.signature then
    throw (.bad "bad_signature" "the envelope signature does not verify")
  -- the first valid commit for an epoch wins; there is no merge
  if req.epoch ≠ g.epoch ∨ req.expectedRevision ≠ g.revision then
    throw (((GErr.conflict "revision_conflict" "another commit won; catch up and rebuild").with_
      "current_epoch" g.epoch).with_ "revision" g.revision)
  if g.activationState = .provisioning ∧ g.epoch ≠ 0 then
    throw (.conflict "revision_conflict" "the group is in an inconsistent state")
  g.checkAdds dir claims me device now req.adds
  g.checkRemoves dir me device req.removes
  let committed ← g.commitLeaves me device req now
  let activated := committed.activatable
  let g' ← committed.activateAll g.nextSeq (g.epoch + 1) now activated
  if g.activationState = .provisioning then
    return (g'.activateGroup dir me now).noticeJoined now (activated.filter (· ≠ me))
  return g'.noticeJoined now activated

/-- The checks the handler makes before the transaction. -/
def commitChecks (crypto : GroupCrypto) (gid : GroupId) (me : Mailbox) (device : DeviceId)
    (req : CommitReq) : Except GErr Unit := do
  if req.commit.length > 4 * 1024 * 1024 ∨ req.welcome.any (·.length > 8 * 1024 * 1024) then
    throw ⟨413, "too_large", "commit too large", []⟩
  if req.adds.length > 1000 ∨ req.removes.length > 1000 then
    throw (.bad "bad_request" "too many changes in one commit")
  let info ← okOr (crypto.inspectEnvelope req.commit) (.bad "bad_envelope" "not a group commit")
  if info ≠ ⟨.commit, gid, me, device, req.commitId, req.epoch⟩ then
    throw (.bad "binding_mismatch" "the commit header does not match this request")
  let recipients ← match req.welcome with
    | some welcome => okOr (crypto.welcomeRecipients welcome) (.bad "bad_welcome" "not a welcome")
    | none => pure []
  let declared := req.adds.map AddRef.ref
  if ¬declared.Nodup ∨ ¬(recipients ⊆ declared ∧ declared ⊆ recipients) then
    throw (.bad "binding_mismatch" "the welcome must be addressed to exactly the declared adds")

/-! ## Acknowledgements -/

/-- `POST /v1/groups/{id}/epoch-ack`. -/
def epochAck (me : Mailbox) (device : DeviceId) (epoch now : ℕ) (g : Group) :
    Except GErr Group := do
  g.live
  return g.ackLeaf (me, device) (min epoch g.epoch) now

/-- `POST /v1/mls/welcomes/{welcome_id}/ack`. -/
def welcomeAck (me : Mailbox) (device : DeviceId) (wid : ℕ) (joined : Bool) (now : ℕ)
    (g : Group) : Except GErr Group := do
  let w ← okOr (g.welcomes.find? fun w => w.id = wid ∧ w.mailbox = me ∧ w.deviceId = device)
    ⟨404, "not_found", "no such welcome", []⟩
  let g := { g with
    welcomes := g.welcomes.map fun (w : Welcome) =>
      if w.id = wid then { w with ackedAt := some now, joined := some joined } else w }
  return if joined then g.ackLeaf (me, device) w.epoch now else g.markStale (me, device)

/-- `POST /v1/groups/{id}/resync`. -/
def resync (me : Mailbox) (device : DeviceId) (g : Group) : Except GErr Group := do
  g.live
  let _ ← g.activeMember me
  return g.markStale (me, device)

/-! ## Devices -/

def deviceAdded (mailbox : Mailbox) (now : ℕ) (g : Group) : Group :=
  if g.isMember mailbox ∧ g.deletedAt = none then g.addNotice .deviceAdded (some mailbox) now else g

def deviceRevoked (mailbox : Mailbox) (device : DeviceId) (now : ℕ) (g : Group) : Group :=
  if g.isMember mailbox ∧ g.deletedAt = none ∧ g.isLeaf mailbox device then
    g.addNotice .deviceRemoved (some mailbox) now
  else g

/-! ## Pruning -/

/-- `MIN(acked_epoch)` over the leaves, `0` without any. -/
def minAcked (g : Group) : ℕ := ((g.leaves.rows.map (·.ackedEpoch)).min?).getD 0

/-- Whether `sweep_mls` may prune through this handshake. -/
def prunable (now : ℕ) (g : Group) (h : Handshake) : Bool :=
  let old := decide (h.createdAt + handshakeRetentionSecs < now)
  (decide (h.epoch < g.minAcked) || old) &&
    !(g.welcomes.any fun w => w.seq == h.seq && w.ackedAt.isNone && !old)

/-- Prunes the handshakes every leaf has moved past or that are too old. -/
def pruneHandshakes (now : ℕ) (g : Group) : Group :=
  match ((g.handshakes.rows.filter (g.prunable now)).map (·.seq)).max? with
  | none => g
  | some through =>
    { g with
      handshakes := g.handshakes.delete fun h => h.seq ≤ through
      prunedThroughSeq := max g.prunedThroughSeq through }

end Group

end Pigeonpost.Groups
