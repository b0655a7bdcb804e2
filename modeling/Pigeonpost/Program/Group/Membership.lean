import Pigeonpost.Program.Group.Tables

/-! # Group membership (`pigeonpost-postbox/src/groups.rs`, `org_rooms.rs`)

Every request is one transaction on the group's rows: a refusal leaves them as they were.
`me` is the mailbox the caller acts as. -/

namespace Pigeonpost.Groups

/-! ## Invitations -/

/-- An invitee, resolved and judged before the transaction. -/
structure Invitee where
  address : Option Mailbox
  /-- A refusal decided before (`unresolved`, `not_admitted`). -/
  refusal : Option String
  filtered : Bool

def Invitee.target (i : Invitee) : Option Mailbox :=
  if i.refusal.isSome then none else some (i.address.getD [])

namespace Group

variable (g : Group)

/-- Invitations to a provisioning group stay invisible until it activates. -/
def releaseInvitation (inviter : Mailbox) (now : ℕ) : Group :=
  if g.activationState = .active then g.addNotice .memberInvited (some inviter) now else g

def inviteOne (cap : ℕ) (inviter : Mailbox) (now : ℕ) (g : Group) (i : Invitee) : Group × String :=
  match i.refusal with
  | some refusal => (g, refusal)
  | none =>
    let address := i.address.getD []
    if g.isBanned address then (g, "banned")
    else
      match g.loadMember address with
      | some m =>
        if m.state.isLive then (g, "already_member")
        else if m.state = .invited then
          ((g.putMember { m with
              invitedBy := some inviter, invitedAt := some now, updatedAt := now,
              revision := m.revision + 1 }).releaseInvitation inviter now, "invited")
        else
          ((g.putMember { m with
              state := .invited, role := .member, invitedBy := some inviter,
              invitedAt := some now, filtered := i.filtered, updatedAt := now,
              revision := m.revision + 1 }).releaseInvitation inviter now, "invited")
      | none =>
        -- only a mailbox without a row is counted against the cap
        if g.countLive ≥ cap then (g, "group_full")
        else
          ((g.putMember { MemberRow.new address .member .invited now with
              invitedBy := some inviter, invitedAt := some now,
              filtered := i.filtered }).releaseInvitation inviter now, "invited")

def inviteAll (cap : ℕ) (inviter : Mailbox) (now : ℕ) : Group → List Invitee → Group × List String
  | g, [] => (g, [])
  | g, i :: rest =>
    let first := g.inviteOne cap inviter now i
    let others := inviteAll cap inviter now first.1 rest
    (others.1, first.2 :: others.2)

def inviteIn (dir : Directory) (g : Group) (inviter : Mailbox) (invitees : List Invitee)
    (now : ℕ) : Except GErr (Group × List String) :=
  let today := g.members.count fun row => row.invitedAt.any fun at_ => at_ + 86400 > now
  let fresh := invitees.countP fun i => i.refusal.isNone
  if today + fresh > invitesPerGroupDay then
    .error ⟨429, "rate_limited", "this group has sent its invitations for today", []⟩
  else .ok (g.inviteAll (g.maxMembers dir) inviter now invitees)

/-- `POST /v1/groups/{id}/members`. -/
def invite (dir : Directory) (me : Mailbox) (invitees : List Invitee) (now : ℕ) (g : Group) :
    Except GErr Group := do
  g.live
  let m ← g.activeMember me
  if ¬(isAdmin m ∨ (m.role = .member ∧ g.membersCanInvite)) then
    throw (.forbidden "not_admin" "only admins can invite people here")
  let (g, _) ← g.inviteIn dir me invitees now
  return g

/-! ## Creation, settings and deletion -/

/-- A provisioning group whose creator is its keying owner. -/
def provisioned (id : GroupId) (orgId : Option OrgId) (joinPolicy : JoinPolicy)
    (postPolicy : PostPolicy) (visibility : Visibility) (membersCanInvite : Bool)
    (membersCanChangeTimer : Bool) (autoJoin : Bool) (ephemeralSecs : Option ℕ) (me : Mailbox)
    (now : ℕ) : Group :=
  { id, orgId, joinPolicy, postPolicy, visibility, membersCanInvite, membersCanChangeTimer,
    autoJoin, ephemeralSecs
    revision := 1
    activationState := .provisioning
    linkTokenHash := none
    storedMaxMembers := defaultMaxMembers
    epoch := 0
    lastSeq := 0
    prunedThroughSeq := 0
    deletedAt := none
    members := KeyedTable.empty.put
      { MemberRow.new me .owner .keying now with joinedAt := some now }
    bans := .empty
    intervals := .empty
    leaves := .empty
    handshakes := .empty
    messages := []
    notices := []
    attachments := .empty
    welcomes := [] }

/-- The settings a `PATCH` may carry; `cosmetic` stands for name, description and streams. -/
structure SettingsChange where
  expectedRevision : ℕ
  cosmetic : Bool
  joinPolicy : Option JoinPolicy
  postPolicy : Option PostPolicy
  visibility : Option Visibility
  membersCanInvite : Option Bool
  membersCanChangeTimer : Option Bool
  ephemeralSecs : Option (Option ℕ)

def SettingsChange.onlyTimer (c : SettingsChange) : Bool :=
  !c.cosmetic && c.joinPolicy.isNone && c.postPolicy.isNone && c.visibility.isNone &&
    c.membersCanInvite.isNone && c.membersCanChangeTimer.isNone && c.ephemeralSecs.isSome

/-- Whether anything but the timer is given. -/
def SettingsChange.others (c : SettingsChange) : Bool :=
  c.cosmetic || c.joinPolicy.isSome || c.postPolicy.isSome || c.visibility.isSome ||
    c.membersCanInvite.isSome || c.membersCanChangeTimer.isSome

def setColumns (c : SettingsChange) : Group :=
  { g with
    joinPolicy := c.joinPolicy.getD g.joinPolicy
    postPolicy := c.postPolicy.getD g.postPolicy
    visibility := c.visibility.getD g.visibility
    membersCanInvite := c.membersCanInvite.getD g.membersCanInvite
    membersCanChangeTimer := c.membersCanChangeTimer.getD g.membersCanChangeTimer
    ephemeralSecs := c.ephemeralSecs.getD g.ephemeralSecs
    linkTokenHash := if c.joinPolicy = some .privateGroup then none else g.linkTokenHash }

/-- `PATCH /v1/groups/{id}`. -/
def patch (me : Mailbox) (c : SettingsChange) (now : ℕ) (g : Group) : Except GErr Group := do
  if c.ephemeralSecs.any fun timer => timer.any fun secs => !timers.contains secs then
    throw (.bad "bad_request" "unsupported ephemeral_secs")
  g.live
  let m ← g.activeMember me
  if ¬(isAdmin m ∨ (c.onlyTimer ∧ g.membersCanChangeTimer ∧ m.role ≠ .restricted)) then
    throw (.forbidden "not_admin" "only group admins can change settings")
  if c.expectedRevision ≠ g.revision then
    throw ((GErr.conflict "revision_conflict" "the group changed; reload").with_
      "current_revision" g.revision)
  if !c.others && c.ephemeralSecs.isNone then return g
  let g := (g.setColumns c).bumpRevision
  let g := if c.ephemeralSecs.isSome then g.addNotice .timerChanged (some me) now else g
  return if c.others then g.addNotice .settingsChanged (some me) now else g

/-- `POST /v1/groups/{id}/link`; `tokenHash` is the hash of the fresh token. -/
def link (me : Mailbox) (enabled : Bool) (tokenHash : Bytes) (now : ℕ) (g : Group) :
    Except GErr Group := do
  g.live
  let m ← g.activeMember me
  requireAdmin m
  if enabled ∧ g.joinPolicy ≠ .publicGroup then
    throw (.bad "invite_required" "only public groups have a join link")
  return (Group.bumpRevision { g with
    linkTokenHash := if enabled then some tokenHash else none }).addNotice .linkReset (some me) now

/-- Soft delete: intervals close where the group stands, invitations go. -/
def deleteIn (now : ℕ) : Group :=
  { g with
    deletedAt := some now
    revision := g.revision + 1
    linkTokenHash := none
    intervals := g.intervals.update
      (fun row => if row.lastSeq = none then { row with lastSeq := some g.lastSeq } else row)
      fun row => by split <;> rfl
    members := g.members.delete fun row => row.state = .invited }

/-- `DELETE /v1/groups/{id}`. -/
def delete (me : Mailbox) (now : ℕ) (g : Group) : Except GErr Group := do
  g.live
  let m ← okOr (g.loadMember me) .notFound
  if m.role ≠ .owner ∨ ¬m.state.isLive then
    throw (.forbidden "owner_only" "only the owner can delete the group")
  return g.deleteIn now

/-! ## Taking members out -/

def outNotice : MemberState → NoticeKind
  | .left => .memberLeft
  | .banned => .memberBanned
  | _ => .memberRemoved

/-- Remove, ban or leave: the row changes, the interval closes, the notice is written. The
leaves stay until a device commits their removal. -/
def takeOut (target : MemberRow) (newState : MemberState) (actor : Mailbox) (now : ℕ) : Group :=
  let row := { target with
    state := newState
    revision := target.revision + 1
    updatedAt := now
    role := if target.role = .owner then .owner else .member }
  let g := g.putMember row
  let g := if target.state.isLive then g.closeInterval target.member else g
  g.addNotice (outNotice newState) (some actor) now

inductive MemberChange where
  | role (role : Role)
  | state (state : MemberState)

/-- Who may give a role: admins, but only the owner demotes an admin who does not resign. -/
def mayChangeRole (actor target : MemberRow) (role : Role) : Bool :=
  if role = .admin then isAdmin actor
  else if target.role = .admin then
    actor.role == .owner || (target.member == actor.member && role == .member)
  else isAdmin actor

def patchRole (actor target : MemberRow) (role : Role) (now : ℕ) (g : Group) :
    Except GErr Group := do
  if ¬target.state.isLive then throw (.bad "not_member" "only members have roles")
  if ¬mayChangeRole actor target role then
    throw (if target.role = .admin then
      .forbidden "owner_only" "only the owner can demote an admin"
    else .forbidden "not_admin" "only group admins can change roles")
  if target.role = role then return g
  return (g.putMember { target with
    role, revision := target.revision + 1, updatedAt := now }).addNotice .roleChanged
      (some actor.member) now

/-- The ban is listed, and a row that is still there is marked. -/
def ban (address me : Mailbox) (reason : Option Bytes) (now : ℕ) (g : Group) : Group :=
  let g := { g with bans := g.bans.put ⟨address, me, reason, now⟩ }
  match g.loadMember address with
  | some m => g.putMember { m with state := .banned, revision := m.revision + 1, updatedAt := now }
  | none => g

def patchState (actor target : MemberRow) (newState : MemberState) (reason : Option Bytes)
    (now : ℕ) (g : Group) : Except GErr Group := do
  if ¬(isAdmin actor ∧ (target.role ≠ .admin ∨ actor.role = .owner) ∧
      target.member ≠ actor.member) then
    throw (.forbidden "not_admin" "you cannot remove this member")
  -- an invitation is withdrawn by deleting its row
  let g ←
    if target.state = .invited then pure (g.deleteMember target.member)
    else if target.state.isLive then pure (g.takeOut target newState actor.member now)
    else if newState = .banned then pure g
    else throw (.bad "not_member" "that mailbox is not a member")
  return if newState = .banned then g.ban target.member actor.member reason now else g

/-- The roles and states a request may name. -/
def checkChange : MemberChange → Except GErr Unit
  | .role role =>
    if role = .owner then
      .error (.bad "bad_request" "role must be admin, member or restricted")
    else .ok ()
  | .state newState =>
    if newState ≠ .removed ∧ newState ≠ .banned then
      .error (.bad "bad_request" "state must be removed or banned")
    else .ok ()

/-- `PATCH /v1/groups/{id}/members/{address}`. -/
def patchMember (me address : Mailbox) (expectedRevision : ℕ) (change : MemberChange)
    (reason : Option Bytes) (now : ℕ) (g : Group) : Except GErr Group := do
  checkChange change
  g.live
  let actor ← g.activeMember me
  let target ← okOr (g.loadMember address) ⟨404, "not_member", "no such member", []⟩
  if target.role = .owner then
    throw (.forbidden "owner_only"
      "nobody can change the owner here; the owner transfers ownership")
  if expectedRevision ≠ target.revision then
    throw ((GErr.conflict "revision_conflict" "that member changed; reload").with_
      "current_revision" target.revision)
  match change with
  | .role role => g.patchRole actor target role now
  | .state newState => g.patchState actor target newState reason now

/-- `DELETE /v1/groups/{id}/bans/{address}`. -/
def unban (me address : Mailbox) (g : Group) : Except GErr Group := do
  g.live
  let m ← g.activeMember me
  requireAdmin m
  return { g with
    bans := g.bans.delete fun row => row.member = address
    members := g.members.delete fun row => row.member = address ∧ row.state = .banned }

/-! ## Coming in -/

/-- The mailbox waits for a device to add its own. -/
def startKeying (who : Mailbox) (now : ℕ) : Group :=
  match g.loadMember who with
  | some m => g.putMember { m with
    state := .keying
    role := if m.role = .owner then .owner else .member
    revision := m.revision + 1
    updatedAt := now
    filtered := false }
  | none => g.putMember (MemberRow.new who .member .keying now)

/-- The inviter's authority as acceptance rechecks it. -/
def inviterOk (m : MemberRow) : Bool :=
  m.invitedBy.any fun inviter => (g.loadMember inviter).any fun i =>
    i.state == .active && (isAdmin i || (i.role == .member && g.membersCanInvite))

/-- `POST /v1/groups/{id}/invitation`. -/
def respond (dir : Directory) (me : Mailbox) (accept : Bool) (now : ℕ) (g : Group) :
    Except GErr Group := do
  g.live
  let m ← okOr ((g.loadMember me).filter fun m => m.state = .invited)
    (.forbidden "invite_required" "you have no invitation to this group")
  if g.activationState ≠ .active then
    throw (.forbidden "invite_required" "you have no invitation to this group")
  if !accept then return g.deleteMember me
  if !g.inviterOk m then
    throw (.forbidden "invite_required" "this invitation is no longer valid")
  if g.countMembers ≥ g.maxMembers dir then
    throw (.conflict "group_full" "this group is full")
  return g.startKeying me now

/-- `link_matches`, on the hash of the given token (none for a blank one). -/
def linkMatches (tokenHash : Option Bytes) : Bool :=
  g.linkTokenHash.any fun stored => tokenHash == some stored

/-- `join_in`; `link` is whether a token was given, with its hash unless it is blank. -/
def join (dir : Directory) (me : Mailbox) (link : Option (Option Bytes)) (now : ℕ) (g : Group) :
    Except GErr Group := do
  g.live
  let existing := g.loadMember me
  if existing.any fun m => m.state.isLive then
    throw (.conflict "already_member" "you are already a member")
  if g.activationState ≠ .active then throw .notFound
  if g.joinPolicy ≠ .publicGroup then
    throw (if link.isSome then .forbidden "invalid_link" "this link is not valid"
      else .forbidden "invite_required" "this group is invite-only")
  -- a link never overrides organization membership
  if g.orgId.any fun org => !dir.memberMailboxIn org me then
    throw (.forbidden "not_org_member" "organization rooms are for their members")
  if ¬(g.visibility = .listed ∨ g.linkMatches link.join) then
    throw (.forbidden "invalid_link" "this link is not valid")
  if g.isBanned me then throw (.forbidden "banned" "you cannot join this group")
  -- an invited mailbox is not counted again
  if g.countLive ≥ g.maxMembers dir ∧ existing.all fun m => m.state ≠ .invited then
    throw (.conflict "group_full" "this group is full")
  return g.startKeying me now

/-! ## Going out -/

/-- `POST /v1/groups/{id}/leave`. -/
def leave (me : Mailbox) (now : ℕ) (g : Group) : Except GErr Group := do
  g.live
  let m ← okOr ((g.loadMember me).filter fun m => m.state.isLive || m.state == .invited)
    (.forbidden "not_member" "you are not a member of this group")
  if m.state = .invited then return g.deleteMember me
  if m.role = .owner then
    if g.members.count (fun row => row.member != me && row.state.isLive) > 0 then
      throw (.forbidden "owner_only" "transfer ownership before leaving")
    -- the last member leaving ends the group
    return (g.deleteIn now).putMember { m with state := .left, updatedAt := now }
  return g.takeOut m .left me now

/-- `POST /v1/groups/{id}/transfer`. -/
def transfer (me next : Mailbox) (expectedRevision : ℕ) (now : ℕ) (g : Group) :
    Except GErr Group := do
  g.live
  let m ← g.activeMember me
  if m.role ≠ .owner then
    throw (.forbidden "owner_only" "only the owner can transfer ownership")
  if expectedRevision ≠ g.revision then
    throw ((GErr.conflict "revision_conflict" "the group changed; reload").with_
      "current_revision" g.revision)
  let target ← okOr ((g.loadMember next).filter fun t => t.state = .active ∧ t.role = .admin)
    (.bad "not_admin" "ownership goes to an active admin")
  let g := g.putMember { m with role := .admin, revision := m.revision + 1, updatedAt := now }
  let g := g.putMember { target with
    role := .owner, revision := target.revision + 1, updatedAt := now }
  return g.bumpRevision.addNotice .ownershipTransferred (some me) now

/-! ## Organization rooms (`org_rooms.rs`) -/

/-- What `auto_join_in` does to one room of the organization. -/
def autoJoinRoom (org : OrgId) (mailbox : Mailbox) (now : ℕ) (g : Group) : Group :=
  if g.orgId = some org ∧ g.autoJoin ∧ g.deletedAt = none ∧ g.activationState = .active then
    if g.stateOf mailbox = some .active ∨ g.stateOf mailbox = some .keying ∨
        g.stateOf mailbox = some .banned then g
    else (g.startKeying mailbox now).addNotice .memberInvited none now
  else g

def queueAll (now : ℕ) : Group → List Mailbox → Group
  | g, [] => g
  | g, mailbox :: rest =>
    queueAll now (if (g.loadMember mailbox).isNone then g.startKeying mailbox now else g) rest

/-- An activated auto-join room queues every live member who is not yet in it. -/
def onRoomActivated (dir : Directory) (now : ℕ) (g : Group) : Group :=
  match g.orgId.bind dir.orgs.lookup with
  | some org =>
    if g.autoJoin then
      g.queueAll now (org.members.filterMap fun seat => if seat.active then seat.identity else none)
    else g
  | none => g

/-- The oldest admin, else the oldest active member. -/
def heir (mailbox : Mailbox) : Option MemberRow :=
  ((g.members.rows.filter fun row => row.member ≠ mailbox ∧ row.state = .active).insertionSort
    fun a b =>
      let rank (row : MemberRow) : ℕ := if row.role = .admin then 0 else 1
      rank a < rank b ∨ (rank a = rank b ∧ a.joinedAt.getD 0 ≤ b.joinedAt.getD 0)).head?

/-- Ownership passes on before the owner is taken out. -/
def handOver (owner heir : MemberRow) (now : ℕ) (g : Group) : Group :=
  let g := g.putMember { owner with role := .member }
  let g := g.putMember { heir with role := .owner, revision := heir.revision + 1 }
  g.addNotice .ownershipTransferred none now

/-- What `remove_everywhere_in` does to one group. -/
def offboard (mailbox actor : Mailbox) (now : ℕ) (g : Group) : Group :=
  if g.deletedAt.isSome then g
  else
    match g.loadMember mailbox with
    | none => g
    | some m =>
      if m.state = .invited then g.deleteMember mailbox
      else if !m.state.isLive then g
      else if m.role = .owner then
        match g.heir mailbox with
        | some heir =>
          (g.handOver m heir now).takeOut { m with role := .member } .removed actor now
        | none => g.deleteIn now
      else g.takeOut m .removed actor now

/-- `PATCH /v1/orgs/{id}/rooms/{room}`. -/
def patchRoom (autoJoin : Option Bool) (listed : Option Bool) (g : Group) : Except GErr Group := do
  g.live
  if autoJoin = some true ∧ g.joinPolicy ≠ .publicGroup then
    throw (.forbidden "forbidden" "only people admins can make a public room join everyone")
  return Group.bumpRevision { g with
    autoJoin := autoJoin.getD g.autoJoin
    visibility := (listed.map fun l => if l then .listed else .unlisted).getD g.visibility }

end Group

end Pigeonpost.Groups
