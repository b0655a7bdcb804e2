import Pigeonpost.Library.Machine
import Pigeonpost.Program.Group.Messages

/-! # The postbox's groups

All groups with the devices, key packages and organizations their requests read, and the
requests as steps of one machine. Rate limits and replayed request keys only refuse or repeat
an answer; they are left out. -/

namespace Pigeonpost.Groups

/-! ## No operation renames a group -/

namespace Group

section Ids

variable (g : Group)

@[simp] theorem id_addNotice (kind : NoticeKind) (actor : Option Mailbox) (now : ℕ) :
    (g.addNotice kind actor now).id = g.id := rfl

@[simp] theorem id_startKeying (who : Mailbox) (now : ℕ) : (g.startKeying who now).id = g.id := by
  unfold startKeying
  split <;> rfl

@[simp] theorem id_takeOut (m : MemberRow) (s : MemberState) (actor : Mailbox) (now : ℕ) :
    (g.takeOut m s actor now).id = g.id := by
  unfold takeOut
  dsimp only
  split <;> rfl

@[simp] theorem id_autoJoinRoom (org : OrgId) (mailbox : Mailbox) (now : ℕ) :
    (g.autoJoinRoom org mailbox now).id = g.id := by
  unfold autoJoinRoom
  split
  · split
    · rfl
    · simp
  · rfl

@[simp] theorem id_offboard (mailbox actor : Mailbox) (now : ℕ) :
    (g.offboard mailbox actor now).id = g.id := by
  unfold offboard
  repeat' split
  all_goals first | rfl | simp [handOver, putMember]

@[simp] theorem id_deviceAdded (mailbox : Mailbox) (now : ℕ) :
    (g.deviceAdded mailbox now).id = g.id := by
  unfold deviceAdded
  split <;> rfl

@[simp] theorem id_deviceRevoked (mailbox : Mailbox) (device : DeviceId) (now : ℕ) :
    (g.deviceRevoked mailbox device now).id = g.id := by
  unfold deviceRevoked
  split <;> rfl

@[simp] theorem id_expireMessage (now seq : ℕ) : (g.expireMessage now seq).id = g.id := by
  unfold expireMessage
  split <;> rfl

@[simp] theorem id_expire (now : ℕ) (picked : List ℕ) : (g.expire now picked).id = g.id := by
  have hfold : ∀ h : Group, (picked.foldl (fun g seq => g.expireMessage now seq) h).id = h.id := by
    induction picked with
    | nil => exact fun _ => rfl
    | cons _ _ ih =>
      intro h
      rw [List.foldl_cons, ih, id_expireMessage]
  exact hfold g

@[simp] theorem id_purge (now : ℕ) : (g.purge now).id = g.id := by
  unfold purge
  split <;> rfl

@[simp] theorem id_pruneHandshakes (now : ℕ) : (g.pruneHandshakes now).id = g.id := by
  unfold pruneHandshakes
  split <;> rfl

@[simp] theorem id_clean (now : ℕ) (picked : List ℕ) (purged : Bool) :
    (g.clean now picked purged).id = g.id := by
  cases purged <;> simp [clean]

end Ids

end Group

/-! ## Requests on one group -/

inductive Request where
  | patch (change : Group.SettingsChange)
  | link (enabled : Bool) (tokenHash : Bytes)
  | delete
  | invite (invitees : List Invitee)
  | patchMember (address : Mailbox) (expectedRevision : ℕ) (change : Group.MemberChange)
    (reason : Option Bytes)
  | unban (address : Mailbox)
  | respond (accept : Bool)
  | join (link : Option (Option Bytes))
  | leave
  | transfer (next : Mailbox) (expectedRevision : ℕ)
  | readCursor (seq : ℕ)
  | post (device : DeviceId) (req : Group.PostReq) (quota : ℕ)
  | attach (device : DeviceId) (att sha256 : Bytes) (bytes quota : ℕ)
  | deleteMessage (seq : ℕ)
  | epochAck (device : DeviceId) (epoch : ℕ)
  | welcomeAck (device : DeviceId) (wid : ℕ) (joined : Bool)
  | resync (device : DeviceId)

def Group.perform (crypto : GroupCrypto) (dir : Directory) (me : Mailbox) (now : ℕ)
    (request : Request) (g : Group) : Except GErr Group :=
  match request with
  | .patch change => g.patch me change now
  | .link enabled tokenHash => g.link me enabled tokenHash now
  | .delete => g.delete me now
  | .invite invitees => g.invite dir me invitees now
  | .patchMember address revision change reason =>
    g.patchMember me address revision change reason now
  | .unban address => g.unban me address
  | .respond accept => g.respond dir me accept now
  | .join link => g.join dir me link now
  | .leave => g.leave me now
  | .transfer next revision => g.transfer me next revision now
  | .readCursor seq => g.readCursor me seq
  | .post device req quota => g.post crypto dir me device req quota now
  | .attach _ att sha256 bytes quota => g.attach me att sha256 bytes quota now
  | .deleteMessage seq => (g.deleteMessage me seq now).map (·.1)
  | .epochAck device epoch => g.epochAck me device epoch now
  | .welcomeAck device wid joined => g.welcomeAck me device wid joined now
  | .resync device => g.resync me device

/-- The device a request needs, as the request context resolves it. -/
def Request.device? : Request → Option DeviceId
  | .post device _ _ | .attach device _ _ _ _ | .epochAck device _ | .welcomeAck device _ _
  | .resync device => some device
  | _ => none

/-- The mailboxes a request names that were resolved before the transaction. -/
def Request.named : Request → List Mailbox
  | .invite invitees => invitees.filterMap Invitee.target
  | _ => []

/-! ## Operations -/

structure NewGroup where
  id : GroupId
  orgId : Option OrgId
  joinPolicy : JoinPolicy
  postPolicy : PostPolicy
  visibility : Visibility
  membersCanInvite : Bool
  membersCanChangeTimer : Bool
  autoJoin : Bool
  ephemeralSecs : Option ℕ
  invitees : List Invitee

inductive Op where
  /-- A mailbox is created outside any organization. -/
  | mint (address : Mailbox)
  /-- An organization's own tables change. -/
  | changeOrg (org : Org)
  /-- `POST /v1/groups` and the rooms organizations create. -/
  | create (me : Mailbox) (new : NewGroup)
  | request (me : Mailbox) (gid : GroupId) (request : Request)
  | patchRoom (gid : GroupId) (autoJoin listed : Option Bool)
  | deleteRoom (gid : GroupId)
  /-- A member gets an address in the organization and joins its auto-join rooms. -/
  | onboard (org : OrgId) (address : Mailbox)
  | offboard (mailbox actor : Mailbox)
  | registerDevice (me : Mailbox) (device : DeviceId) (signatureKey : Bytes)
  | revokeDevice (me : Mailbox) (device : DeviceId)
  | uploadKeyPackages (me : Mailbox) (device : DeviceId) (packages : List Bytes)
    (lastResort : Option Bytes)
  | claim (me : Mailbox) (device : DeviceId) (gid : GroupId) (mailboxes : List Mailbox)
  | commit (me : Mailbox) (device : DeviceId) (gid : GroupId) (req : CommitReq)
  | streamNotice (gid : GroupId) (host : Mailbox)
  /-- The maintenance pass over a batch of expired messages and long-deleted groups. -/
  | sweep (expired : List (GroupId × ℕ)) (purged : List GroupId)

/-- What the answers tell: packages handed out, commits and messages accepted. -/
inductive Event where
  | handedOut (ref : Bytes) (lastResort : Bool)
  | committed (gid : GroupId) (epoch : ℕ) (me : Mailbox) (device : DeviceId) (adds : List AddRef)
    (removes : List (Mailbox × DeviceId))
  | posted (gid : GroupId) (epoch : ℕ)

structure Postbox where
  dir : Directory
  keyPackages : KeyedTable KeyPackage.ref
  claims : List KpClaim
  groups : KeyedTable Group.id

namespace Postbox

def empty : Postbox := ⟨⟨[], .empty, .empty⟩, .empty, [], .empty⟩

variable (p : Postbox)

/-- The acting mailbox exists, and its device is registered and not revoked. -/
def context (me : Mailbox) (device : Option DeviceId) : Except GErr Unit := do
  if me ∉ p.dir.identities then throw ⟨401, "unauthorized", "no such mailbox", []⟩
  match device with
  | none => pure ()
  | some device =>
    match p.dir.devices.lookup (me, device) with
    | none => throw (.forbidden "unknown_device" "that device is not registered for this mailbox")
    | some d =>
      if d.revokedAt.isSome then throw (.forbidden "device_revoked" "that device was revoked")

def onGroup (gid : GroupId) (f : Group → Except GErr Group) :
    Except GErr Postbox := do
  let g ← okOr (p.groups.lookup gid) .notFound
  let g ← f g
  return { p with groups := p.groups.put g }

/-! ## Devices and key packages -/

def registerDevice (me : Mailbox) (device : DeviceId) (signatureKey : Bytes)
    (now : ℕ) : Except GErr Postbox := do
  if signatureKey.length ≠ 32 then throw (.bad "bad_request" "signature_key must be 32 bytes")
  if p.dir.devices.count (fun d => d.mailbox == me && d.revokedAt.isNone) ≥ maxDevices then
    throw (.conflict "too_many_devices" "this mailbox has the maximum number of devices")
  if (p.dir.devices.lookup (me, device)).any fun d => d.revokedAt.isNone then
    throw (.conflict "device_exists" "that device id is already registered")
  -- a revoked id may be used again for a new key
  return { p with
    dir.devices := p.dir.devices.put ⟨me, device, signatureKey, now, none⟩
    groups := p.groups.update (·.deviceAdded me now) fun g => g.id_deviceAdded me now }

def revokeDevice (me : Mailbox) (device : DeviceId) (now : ℕ) :
    Except GErr Postbox := do
  let d ← okOr ((p.dir.devices.lookup (me, device)).filter fun d => d.revokedAt = none)
    ⟨404, "unknown_device", "no such device", []⟩
  return { p with
    dir.devices := p.dir.devices.put { d with revokedAt := some now }
    keyPackages := p.keyPackages.delete fun kp => kp.mailbox = me ∧ kp.deviceId = device
    groups := p.groups.update (·.deviceRevoked me device now)
      fun g => g.id_deviceRevoked me device now }

def vetPackage (crypto : GroupCrypto) (d : Device) (bytes : Bytes) (wantLastResort : Bool)
    (now : ℕ) : Except GErr KeyPackage := do
  let info ← okOr (crypto.inspectKeyPackage bytes)
    (.bad "invalid_key_package" "key package rejected")
  if info.mailbox ≠ d.mailbox ∨ info.deviceId ≠ d.deviceId ∨
      info.signatureKey ≠ d.signatureKey then
    throw (.bad "invalid_key_package" "the key package is not for this device")
  if info.lastResort ≠ wantLastResort then
    throw (.bad "invalid_key_package" "last-resort marking does not match")
  if info.notAfter < now + 86400 then
    throw (.bad "invalid_key_package" "the key package expires too soon")
  return ⟨info.keyPackageRef, d.mailbox, d.deviceId, wantLastResort, info.notAfter, now, none⟩

/-- `INSERT OR IGNORE` of every package. -/
def storePackages (crypto : GroupCrypto) (d : Device) (now : ℕ) :
    KeyedTable KeyPackage.ref → List Bytes → Except GErr (KeyedTable KeyPackage.ref)
  | table, [] => .ok table
  | table, bytes :: rest => do
    let kp ← vetPackage crypto d bytes false now
    storePackages crypto d now ((table.insert kp).getD table) rest

def uploadKeyPackages (crypto : GroupCrypto) (p : Postbox) (me : Mailbox) (device : DeviceId)
    (packages : List Bytes) (lastResort : Option Bytes) (now : ℕ) : Except GErr Postbox := do
  if packages.length > 100 then throw (.bad "bad_request" "too many key packages in one call")
  let d ← okOr (p.dir.devices.lookup (me, device)) .server
  let unclaimed := p.keyPackages.count fun kp =>
    kp.mailbox == me && kp.deviceId == device && !kp.lastResort && kp.claimedAt.isNone
  if unclaimed + packages.length > maxUnclaimed then
    throw (.conflict "too_many_key_packages" "this device already holds enough key packages")
  let table ← storePackages crypto d now p.keyPackages packages
  match lastResort with
  | none => return { p with keyPackages := table }
  | some bytes =>
    let kp ← vetPackage crypto d bytes true now
    let table := table.delete fun old =>
      old.mailbox = me ∧ old.deviceId = device ∧ old.lastResort
    return { p with keyPackages := table.put kp }

/-- The package a claim gets: single-use ones first, the oldest of them. -/
def pickPackage (table : KeyedTable KeyPackage.ref) (q : Pending) (now : ℕ) : Option KeyPackage :=
  ((table.rows.filter fun kp => kp.mailbox = q.mailbox ∧ kp.deviceId = q.deviceId ∧
      now < kp.notAfter ∧ (kp.lastResort ∨ kp.claimedAt = none)).insertionSort fun a b =>
    (a.lastResort = false ∧ b.lastResort) ∨
      (a.lastResort = b.lastResort ∧ a.createdAt ≤ b.createdAt)).head?

/-- The claims of one call, over the pending devices in order. -/
def claimAll (me : Mailbox) (device : DeviceId) (gid : GroupId) (now : ℕ) :
    KeyedTable KeyPackage.ref × List KpClaim × List Event → List Pending →
      KeyedTable KeyPackage.ref × List KpClaim × List Event
  | s, [] => s
  | (table, claims, handed), q :: rest =>
    match pickPackage table q now with
    | none => claimAll me device gid now (table, claims, handed) rest
    | some kp =>
      claimAll me device gid now
        (if kp.lastResort then table else table.put { kp with claimedAt := some now },
          claims ++ [⟨kp.ref, gid, q.mailbox, q.deviceId, me, device, now, none⟩],
          handed ++ [.handedOut kp.ref kp.lastResort]) rest

/-- `POST /v1/groups/{id}/key-packages/claim`. -/
def claim (p : Postbox) (me : Mailbox) (device : DeviceId) (gid : GroupId)
    (mailboxes : List Mailbox) (now : ℕ) : Except GErr (Postbox × List Event) := do
  if mailboxes.length > 200 then throw (.bad "bad_request" "at most 200 mailboxes per claim")
  let g ← okOr (p.groups.lookup gid) .notFound
  g.live
  if !g.mayCommit me device then
    throw (.forbidden "not_member" "this device cannot change the group's keys")
  let wanted := (g.pendingAdds p.dir).filter fun q =>
    mailboxes.contains q.mailbox ∧ q.key ≠ (me, device)
  let (keyPackages, claims, handed) :=
    claimAll me device gid now (p.keyPackages, p.claims, []) wanted
  return ({ p with keyPackages, claims }, handed)

/-- The claims an accepted commit used up. -/
def useClaims (gid : GroupId) (adds : List AddRef) (now : ℕ) (claims : List KpClaim) :
    List KpClaim :=
  claims.map fun c =>
    if c.groupId = gid ∧ c.ref ∈ adds.map AddRef.ref ∧ c.usedAt = none then
      { c with usedAt := some now }
    else c

/-- `POST /v1/groups/{id}/commits`. -/
def commit (crypto : GroupCrypto) (p : Postbox) (me : Mailbox) (device : DeviceId)
    (gid : GroupId) (req : CommitReq) (now : ℕ) : Except GErr (Postbox × List Event) := do
  Group.commitChecks crypto gid me device req
  let g ← okOr (p.groups.lookup gid) .notFound
  let g' ← g.applyCommit crypto p.dir p.claims me device req now
  return ({ p with
    groups := p.groups.put g', claims := useClaims gid req.adds now p.claims },
    [.committed gid g.epoch me device req.adds req.removes])

/-! ## Organizations and maintenance -/

def create (me : Mailbox) (new : NewGroup) (now : ℕ) : Except GErr Postbox := do
  let g := Group.provisioned new.id new.orgId new.joinPolicy new.postPolicy new.visibility
    new.membersCanInvite new.membersCanChangeTimer new.autoJoin new.ephemeralSecs me now
  let (g, _) ← g.inviteIn p.dir me new.invitees now
  let groups ← okOr (p.groups.insert g) .server
  return { p with groups }

/-- Minted addresses are new. -/
def mint (address : Mailbox) : Except GErr Postbox := do
  if address ∈ p.dir.identities then throw .server
  return { p with dir.identities := p.dir.identities ++ [address] }

def sweep (expired : List (GroupId × ℕ)) (purged : List GroupId) (now : ℕ) : Postbox :=
  { p with
    keyPackages := p.keyPackages.delete fun kp =>
      decide (kp.notAfter < now) || kp.claimedAt.any fun at_ => decide (at_ + 86400 < now)
    claims := p.claims.filter fun c => ¬c.claimedAt + 86400 < now ∧
      ¬(purged.contains c.groupId ∧ (p.groups.lookup c.groupId).any (·.purgeable now))
    groups := p.groups.update
      (fun g => g.clean now ((expired.filter fun e => e.1 = g.id).map (·.2)) (purged.contains g.id))
      fun g => g.id_clean now _ _ }

/-! ## Steps -/

/-- Whether a successful request posted a new message. -/
def postEvents (gid : GroupId) (before after : Group) : Request → List Event
  | .post _ req _ => if after.lastSeq = before.lastSeq then [] else [.posted gid req.epoch]
  | _ => []

def handle (crypto : GroupCrypto) (now : ℕ) (op : Op) (p : Postbox) :
    Except GErr (Postbox × List Event) :=
  match op with
  | .mint address => do
    let p ← p.mint address
    return (p, [])
  | .changeOrg org =>
    -- an organization's seats are held by existing mailboxes
    if ∀ seat ∈ org.members ++ org.agents, ∀ who ∈ seat.identity, who ∈ p.dir.identities then
      .ok ({ p with dir.orgs := p.dir.orgs.put org }, [])
    else .error .server
  | .create me new => do
    p.context me none
    if ∃ who ∈ new.invitees.filterMap Invitee.target, who ∉ p.dir.identities then throw .server
    let p ← p.create me new now
    return (p, [])
  | .request me gid request => do
    p.context me request.device?
    if ∃ who ∈ request.named, who ∉ p.dir.identities then throw .server
    let g ← okOr (p.groups.lookup gid) .notFound
    let g' ← g.perform crypto p.dir me now request
    return ({ p with groups := p.groups.put g' }, postEvents gid g g' request)
  | .patchRoom gid autoJoin listed => do
    let p ← p.onGroup gid fun g => g.patchRoom autoJoin listed
    return (p, [])
  | .deleteRoom gid => do
    let p ← p.onGroup gid fun g => do
      g.live
      return g.deleteIn now
    return (p, [])
  | .onboard org address => do
    let p ← p.mint address
    return ({ p with
      groups := p.groups.update (·.autoJoinRoom org address now)
        fun g => g.id_autoJoinRoom org address now }, [])
  | .offboard mailbox actor =>
    .ok ({ p with
      groups := p.groups.update (·.offboard mailbox actor now)
        fun g => g.id_offboard mailbox actor now }, [])
  | .registerDevice me device signatureKey => do
    p.context me none
    let p ← p.registerDevice me device signatureKey now
    return (p, [])
  | .revokeDevice me device => do
    p.context me none
    let p ← p.revokeDevice me device now
    return (p, [])
  | .uploadKeyPackages me device packages lastResort => do
    p.context me (some device)
    let p ← uploadKeyPackages crypto p me device packages lastResort now
    return (p, [])
  | .claim me device gid mailboxes => do
    p.context me (some device)
    p.claim me device gid mailboxes now
  | .commit me device gid req => do
    p.context me (some device)
    commit crypto p me device gid req now
  | .streamNotice gid host => do
    let p ← p.onGroup gid fun g => do
      g.live
      return g.addNotice .stream (some host) now
    return (p, [])
  | .sweep expired purged => .ok (p.sweep expired purged now, [])

/-- A refused operation changes nothing. -/
def step (crypto : GroupCrypto) (p : Postbox) (e : ℕ × Op) : Postbox × List Event :=
  match p.handle crypto e.1 e.2 with
  | .ok result => result
  | .error _ => (p, [])

/-- The state and the answers after operations at given times. -/
def run (crypto : GroupCrypto) (ops : List (ℕ × Op)) : Postbox × List Event :=
  Machine.run (step crypto) empty ops

end Postbox

end Pigeonpost.Groups
