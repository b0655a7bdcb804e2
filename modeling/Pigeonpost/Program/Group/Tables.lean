import Mathlib.Data.List.Sort
import Pigeonpost.Library.ByteString
import Pigeonpost.Library.KeyedTable
import Pigeonpost.Library.Outcome

/-! # Group tables (`pigeonpost-postbox/src/groups.rs`, `store/groups.rs`)

The rows a group owns, and the helpers every group transaction is made of. Texts nobody
decides on (names, descriptions, notice metadata, event payloads) are left out. -/

namespace Pigeonpost.Groups

abbrev Mailbox := Bytes

abbrev GroupId := Bytes

abbrev DeviceId := Bytes

abbrev OrgId := Bytes

/-! ## Refusals -/

structure GErr where
  status : ℕ
  code : String
  message : String
  extra : List (String × ℕ)
deriving DecidableEq

namespace GErr

def bad (code message : String) : GErr := ⟨400, code, message, []⟩

def forbidden (code message : String) : GErr := ⟨403, code, message, []⟩

def conflict (code message : String) : GErr := ⟨409, code, message, []⟩

def notFound : GErr := ⟨404, "not_found", "no such group", []⟩

def server : GErr := ⟨500, "store_error", "store_error", []⟩

/-- Adds a field to the answer. -/
def with_ (e : GErr) (key : String) (value : ℕ) : GErr :=
  { e with extra := e.extra ++ [(key, value)] }

end GErr

/-! ## Limits -/

def invitesPerGroupDay : ℕ := 1000

def maxCiphertext : ℕ := 1200000

def editWindowSecs : ℕ := 86400

def deletedPurgeSecs : ℕ := 30 * 86400

def unclaimedAttachmentSecs : ℕ := 86400

def timers : List ℕ := [300, 3600, 28800, 86400, 604800, 2419200]

/-- The default of the `max_members` column. -/
def defaultMaxMembers : ℕ := 1000

/-! ## Rows -/

inductive Role where
  | owner
  | admin
  | member
  | restricted
deriving DecidableEq

inductive MemberState where
  | active
  | invited
  | keying
  | left
  | removed
  | banned
deriving DecidableEq

/-- Active or keying: the states of a current member. -/
def MemberState.isLive : MemberState → Bool
  | .active | .keying => true
  | _ => false

structure MemberRow where
  member : Mailbox
  role : Role
  state : MemberState
  invitedBy : Option Mailbox
  invitedAt : Option ℕ
  filtered : Bool
  joinedAt : Option ℕ
  joinSeq : Option ℕ
  membershipVersion : ℕ
  revision : ℕ
  readCursor : ℕ
  updatedAt : ℕ

def MemberRow.new (who : Mailbox) (role : Role) (state : MemberState) (now : ℕ) : MemberRow :=
  { member := who, role, state, invitedBy := none, invitedAt := none, filtered := false,
    joinedAt := none, joinSeq := none, membershipVersion := 0, revision := 1, readCursor := 0,
    updatedAt := now }

structure Ban where
  member : Mailbox
  byMember : Mailbox
  reason : Option Bytes
  at_ : ℕ

structure Interval where
  member : Mailbox
  membershipVersion : ℕ
  firstSeq : ℕ
  lastSeq : Option ℕ
  joinEpoch : ℕ
  leaveEpoch : Option ℕ

def Interval.key (row : Interval) : Mailbox × ℕ := (row.member, row.membershipVersion)

structure Leaf where
  mailbox : Mailbox
  deviceId : DeviceId
  addedEpoch : ℕ
  addedSeq : ℕ
  stale : Bool
  ackedEpoch : ℕ
  ackedAt : Option ℕ

def Leaf.key (row : Leaf) : Mailbox × DeviceId := (row.mailbox, row.deviceId)

structure Handshake where
  seq : ℕ
  epoch : ℕ
  commitId : Bytes
  sender : Mailbox
  senderDevice : DeviceId
  adds : List (Mailbox × DeviceId)
  removes : List (Mailbox × DeviceId)
  createdAt : ℕ

inductive NoticeKind where
  | memberInvited
  | memberJoined
  | memberLeft
  | memberRemoved
  | memberBanned
  | roleChanged
  | ownershipTransferred
  | linkReset
  | timerChanged
  | settingsChanged
  | groupCreated
  | deviceAdded
  | deviceRemoved
  | stream
deriving DecidableEq

structure Notice where
  seq : ℕ
  kind : NoticeKind
  actor : Option Mailbox
  createdAt : ℕ
  expiresAt : Option ℕ

structure Message where
  seq : ℕ
  clientMessageId : Bytes
  sender : Mailbox
  senderDevice : DeviceId
  body : Option Bytes
  bytes : ℕ
  attachments : List Bytes
  mentions : List Mailbox
  replyTo : Option ℕ
  editOf : Option ℕ
  replacedBy : Option ℕ
  bodyHash : Bytes
  createdAt : ℕ
  expiresAt : Option ℕ
  editedAt : Option ℕ
  revision : ℕ
  deletedAt : Option ℕ
  epoch : ℕ

structure Attachment where
  id : Bytes
  sha256 : Bytes
  bytes : ℕ
  uploader : Mailbox
  messageSeq : Option ℕ
  createdAt : ℕ
  expiresAt : Option ℕ

structure Welcome where
  /-- Stands for the random identifier: the position among the group's Welcomes. -/
  id : ℕ
  seq : ℕ
  epoch : ℕ
  keyPackageRef : Bytes
  mailbox : Mailbox
  deviceId : DeviceId
  createdAt : ℕ
  ackedAt : Option ℕ
  joined : Option Bool

/-! ## Groups -/

inductive JoinPolicy where
  | privateGroup
  | publicGroup
deriving DecidableEq

inductive PostPolicy where
  | everyone
  | admins
deriving DecidableEq

inductive Visibility where
  | unlisted
  | listed
deriving DecidableEq

inductive ActivationState where
  | provisioning
  | active
deriving DecidableEq

/-- A row of `groups` with the rows of the other tables that carry its id. -/
structure Group where
  id : GroupId
  orgId : Option OrgId
  joinPolicy : JoinPolicy
  postPolicy : PostPolicy
  visibility : Visibility
  membersCanInvite : Bool
  membersCanChangeTimer : Bool
  autoJoin : Bool
  revision : ℕ
  activationState : ActivationState
  linkTokenHash : Option Bytes
  ephemeralSecs : Option ℕ
  /-- The stored cap; `maxMembers` is the one that is read. -/
  storedMaxMembers : ℕ
  epoch : ℕ
  lastSeq : ℕ
  prunedThroughSeq : ℕ
  deletedAt : Option ℕ
  members : KeyedTable MemberRow.member
  bans : KeyedTable Ban.member
  intervals : KeyedTable Interval.key
  leaves : KeyedTable Leaf.key
  handshakes : KeyedTable Handshake.epoch
  messages : List Message
  notices : List Notice
  attachments : KeyedTable Attachment.id
  welcomes : List Welcome

/-! ## Devices and organizations -/

structure Device where
  mailbox : Mailbox
  deviceId : DeviceId
  signatureKey : Bytes
  createdAt : ℕ
  revokedAt : Option ℕ

def Device.key (row : Device) : Mailbox × DeviceId := (row.mailbox, row.deviceId)

inductive OrgStatus where
  | pending
  | active
  | pastDue
  | readOnly
  | suspended
  | deleted
  | paidUnprovisioned
deriving DecidableEq

/-- A member or an agent of an organization. -/
structure OrgSeat where
  identity : Option Mailbox
  active : Bool

structure Org where
  id : OrgId
  status : OrgStatus
  seats : ℕ
  agentLimit : ℕ
  members : List OrgSeat
  agents : List OrgSeat

/-- What group transactions read outside the group. -/
structure Directory where
  /-- Every address ever minted. -/
  identities : List Mailbox
  orgs : KeyedTable Org.id
  devices : KeyedTable Device.key

/-- `org_rooms::member_mailbox_in`. -/
def Directory.memberMailboxIn (dir : Directory) (org : OrgId) (mailbox : Mailbox) : Bool :=
  (dir.orgs.lookup org).any fun o =>
    (o.status == .active || o.status == .pastDue || o.status == .readOnly) &&
      ((o.members ++ o.agents).any fun seat => seat.active && seat.identity == some mailbox)

namespace Group

/-- The cap as `GROUP_COLS` reads it: a personal group keeps its stored one, a room's follows
its organization's plan. -/
def maxMembers (dir : Directory) (g : Group) : ℕ :=
  match g.orgId with
  | none => g.storedMaxMembers
  | some org =>
    ((dir.orgs.lookup org).map fun o => min 10000 (o.seats + o.agentLimit)).getD
      g.storedMaxMembers

variable (g : Group)

/-- `live_group`, on a group that was found. -/
def live : Except GErr Unit :=
  if g.deletedAt.isSome then .error ⟨410, "group_deleted", "this group was deleted", []⟩
  else .ok ()

def loadMember (who : Mailbox) : Option MemberRow := g.members.lookup who

def stateOf (who : Mailbox) : Option MemberState := (g.loadMember who).map (·.state)

def roleOf (who : Mailbox) : Option Role := (g.loadMember who).map (·.role)

def isBanned (who : Mailbox) : Bool := (g.bans.lookup who).isSome

def activeMember (who : Mailbox) : Except GErr MemberRow :=
  match g.loadMember who with
  | some m =>
    if m.state = .active then .ok m
    else if m.state = .keying then
      .error (.conflict "key_activation_pending"
        "your membership is waiting for a member's device to add yours")
    else .error (.forbidden "not_member" "you are not a member of this group")
  | none => .error (.forbidden "not_member" "you are not a member of this group")

/-! ## Sequence numbers and notices -/

/-- The sequence number `alloc_seq` hands out next. -/
def nextSeq : ℕ := g.lastSeq + 1

def addNotice (kind : NoticeKind) (actor : Option Mailbox) (now : ℕ) : Group :=
  { g with
    lastSeq := g.nextSeq
    notices := g.notices ++ [⟨g.nextSeq, kind, actor, now, none⟩] }

def bumpRevision : Group := { g with revision := g.revision + 1 }

/-! ## Members and intervals -/

def putMember (row : MemberRow) : Group := { g with members := g.members.put row }

def deleteMember (who : Mailbox) : Group :=
  { g with members := g.members.delete fun row => row.member = who }

/-- Server access stops now. -/
def closeInterval (who : Mailbox) : Group :=
  { g with
    intervals := g.intervals.update
      (fun row =>
        if row.member = who ∧ row.lastSeq = none then
          { row with lastSeq := some g.lastSeq, leaveEpoch := some g.epoch }
        else row)
      fun row => by split <;> rfl }

def countLive : ℕ :=
  g.members.count fun row => row.state.isLive || row.state == .invited

/-- Members only. -/
def countMembers : ℕ := g.members.count fun row => row.state.isLive

end Group

def isAdmin (m : MemberRow) : Bool := m.role == .owner || m.role == .admin

def requireAdmin (m : MemberRow) : Except GErr Unit :=
  if isAdmin m then .ok () else .error (.forbidden "not_admin" "only group admins can do this")

end Pigeonpost.Groups
