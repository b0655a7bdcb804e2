import Pigeonpost.Program.Group.Delivery

/-! # Group messages (`pigeonpost-postbox/src/groups.rs`)

Posts, deletions and expiry. -/

namespace Pigeonpost.Groups

def encScheme : Bytes := ascii "mls-rfc9420-x25519-aes128gcm-ed25519+ppgc1"

def maxAttachments : ℕ := 32

def maxMentions : ℕ := 50

/-- `valid_key`: 1–64 of letters, digits, `_` and `-`. -/
def validKey (key : Bytes) : Bool :=
  !key.isEmpty && decide (key.length ≤ 64) &&
    key.all fun b => isAsciiAlphanumeric b || b == 0x5f || b == 0x2d

/-- Not past its expiry at a time. -/
def unexpired (now : ℕ) (expiresAt : Option ℕ) : Bool := expiresAt.all fun at_ => decide (now < at_)

namespace Group

/-- `POST /v1/groups/{id}/read`. -/
def readCursor (me : Mailbox) (seq : ℕ) (g : Group) : Except GErr Group := do
  g.live
  let m ← g.activeMember me
  return if min seq g.lastSeq > m.readCursor then
    g.putMember { m with readCursor := min seq g.lastSeq } else g

/-! ## Posts -/

structure PostReq where
  clientMessageId : Bytes
  epoch : ℕ
  encScheme : Bytes
  ciphertext : Bytes
  signature : Bytes
  attachments : List Bytes
  replyTo : Option ℕ
  editOf : Option ℕ
  mentions : List Mailbox

/-- `message_ancestors`: the preceding versions of one author, oldest first. The numbers
decrease along the chain, so the number itself bounds its length. -/
def ancestorsFrom (messages : List Message) : ℕ → Message → List Message
  | 0, m => [m]
  | fuel + 1, m =>
    match messages.find? fun a => m.editOf = some a.seq ∧ a.sender = m.sender ∧ a.seq < m.seq with
    | some a => ancestorsFrom messages fuel a ++ [m]
    | none => [m]

def messageAncestors (g : Group) (seq : ℕ) : List Message :=
  match g.messages.find? fun m => m.seq = seq with
  | some m => ancestorsFrom g.messages seq m
  | none => []

def recentOriginal (at_ now : ℕ) : Bool := decide (at_ ≤ now ∧ now - at_ < editWindowSecs)

/-- Whether the chain ending at a message may get a new version. -/
def editable (me : Mailbox) (now : ℕ) (chain : List Message) : Bool :=
  match chain.head?, chain.getLast? with
  | some root, some latest =>
    root.editOf.isNone && root.sender == me && latest.replacedBy.isNone &&
      recentOriginal root.createdAt now &&
      chain.all fun v => v.deletedAt.isNone && unexpired now v.expiresAt
  | _, _ => false

/-- When a post expires: an edit keeps the earliest deadline of its chain. -/
def postExpiry (me : Mailbox) (editOf : Option ℕ) (now : ℕ) (g : Group) : Except GErr (Option ℕ) :=
  match editOf with
  | some target =>
    let chain := g.messageAncestors target
    if ¬editable me now chain then
      .error (.forbidden "not_editable"
        "you can edit only your own unexpired messages, within 24 hours of the original")
    else .ok (chain.filterMap (·.expiresAt)).min?
  | none => .ok (g.ephemeralSecs.map fun secs => now + secs)

/-- Claims an upload for the message, or moves it on from the edited version. -/
def claimAttachment (me : Mailbox) (seq : ℕ) (editOf expiresAt : Option ℕ)
    (table : KeyedTable Attachment.id) (att : Bytes) : Except GErr (KeyedTable Attachment.id) :=
  match table.lookup att with
  | some row =>
    if row.uploader = me ∧ (row.messageSeq = none ∨ (editOf.isSome ∧ row.messageSeq = editOf)) then
      .ok (table.put { row with messageSeq := some seq, expiresAt })
    else .error (.bad "bad_attachment" "unknown or already used attachment")
  | none => .error (.bad "bad_attachment" "unknown or already used attachment")

def claimAttachments (me : Mailbox) (seq : ℕ) (editOf expiresAt : Option ℕ) :
    KeyedTable Attachment.id → List Bytes → Except GErr (KeyedTable Attachment.id)
  | table, [] => .ok table
  | table, att :: rest => do
    let table ← claimAttachment me seq editOf expiresAt table att
    claimAttachments me seq editOf expiresAt table rest

def groupBytes (g : Group) : ℕ :=
  (g.messages.map (·.bytes)).sum + g.attachments.total (·.bytes)

/-- The edited version points to its successor and loses its body. -/
def replaceMessage (target seq now : ℕ) (m : Message) : Message :=
  if m.seq = target then
    { m with replacedBy := some seq, editedAt := some now, body := none, bytes := 0
             revision := m.revision + 1 }
  else m

/-- The row is written, with its attachments, and an edited version is replaced. -/
def storeMessage (crypto : GroupCrypto) (me : Mailbox) (device : DeviceId) (req : PostReq)
    (now : ℕ) (g : Group) : Except GErr Group := do
  let expiresAt ← g.postExpiry me req.editOf now
  let seq := g.nextSeq
  let attachments ← claimAttachments me seq req.editOf expiresAt g.attachments req.attachments
  let row : Message :=
    { seq, clientMessageId := req.clientMessageId, sender := me, senderDevice := device
      body := some req.ciphertext, bytes := req.ciphertext.length, attachments := req.attachments
      mentions := req.mentions.filter fun who => g.stateOf who = some .active
      replyTo := req.replyTo, editOf := req.editOf, replacedBy := none
      bodyHash := crypto.hash req.ciphertext, createdAt := now, expiresAt, editedAt := none
      revision := 1, deletedAt := none, epoch := req.epoch }
  let messages := g.messages ++ [row]
  return { g with
    lastSeq := seq
    attachments
    messages := match req.editOf with
      | some target => messages.map (replaceMessage target seq now)
      | none => messages }

/-- `post_in`, with the group's storage allowance. A replayed client id changes nothing. -/
def post (crypto : GroupCrypto) (dir : Directory) (me : Mailbox) (device : DeviceId)
    (req : PostReq) (quota now : ℕ) (g : Group) : Except GErr Group := do
  g.live
  let m ← g.activeMember me
  if m.role = .restricted ∨ (g.postPolicy = .admins ∧ ¬isAdmin m) then
    throw (.forbidden "posting_restricted" "only admins can send messages in this group")
  if ¬validKey req.clientMessageId then
    throw (.bad "bad_request" "client_message_id must be 1-64 of A-Z a-z 0-9 _ -")
  if req.encScheme ≠ encScheme then throw (.bad "encryption_unsupported" "unknown enc_scheme")
  if req.ciphertext = [] ∨ req.ciphertext.length > maxCiphertext then
    throw ⟨413, "too_large", "message too large", []⟩
  match g.messages.find? fun p => p.sender = me ∧ p.clientMessageId = req.clientMessageId with
  | some prior =>
    if prior.bodyHash ≠ crypto.hash req.ciphertext then
      throw (.conflict "idempotency_conflict"
        "this client_message_id was used for a different message")
    return g
  | none =>
    if req.epoch ≠ g.epoch then
      throw ((GErr.conflict "epoch_conflict"
        "the group moved to a new epoch; catch up and re-encrypt").with_ "current_epoch" g.epoch)
    if g.pendingRemoves dir ≠ [] then
      throw (.conflict "key_activation_pending"
        "a removal is waiting for a key update; sends resume once a device commits it")
    let row ← okOr ((dir.devices.lookup (me, device)).filter fun d =>
        d.revokedAt = none ∧ g.isLeaf me device)
      (.forbidden "unknown_device" "this device is not in the group")
    if !crypto.verifyEnvelopeSignature row.signatureKey req.ciphertext req.signature then
      throw (.bad "bad_signature" "the envelope signature does not verify")
    let info ← okOr (crypto.inspectEnvelope req.ciphertext)
      (.bad "bad_envelope" "not a group message")
    if info ≠ ⟨.application, g.id, me, device, req.clientMessageId, req.epoch⟩ then
      throw (.bad "binding_mismatch" "the message header does not match this request")
    if g.groupBytes + req.ciphertext.length > quota then
      throw (.conflict "quota_exceeded" "this group is out of storage")
    if req.attachments.length > maxAttachments then
      throw (.bad "bad_request" "too many attachments")
    if req.mentions.length > maxMentions then throw (.bad "bad_request" "too many mentions")
    g.storeMessage crypto me device req now

/-- The transaction of `POST /v1/groups/{id}/attachments`, once the blob is stored. -/
def attach (me : Mailbox) (att sha256 : Bytes) (bytes quota now : ℕ) (g : Group) :
    Except GErr Group := do
  g.live
  let _ ← g.activeMember me
  if g.groupBytes + bytes > quota then
    throw (.conflict "quota_exceeded" "this group is out of storage")
  let attachments ← okOr (g.attachments.insert ⟨att, sha256, bytes, me, none, now, none⟩) .server
  return { g with attachments }

/-! ## Deletion and expiry -/

/-- The later versions of a message: a version follows the one it edits, so one pass over the
messages in order finds them all. -/
def versionsFrom (root : ℕ) : List Message → List Message → List Message
  | found, [] => found
  | found, m :: rest =>
    versionsFrom root
      (if m.seq = root ∨ found.any fun v => m.editOf = some v.seq ∧ m.sender = v.sender ∧
          v.seq < m.seq then found ++ [m] else found) rest

/-- `DELETE /v1/groups/{id}/messages/{seq}`; also the digests of the released attachments. -/
def deleteMessage (me : Mailbox) (seq now : ℕ) (g : Group) :
    Except GErr (Group × List Bytes) := do
  g.live
  let m ← g.activeMember me
  let root ← okOr (g.messageAncestors seq).head? ⟨404, "not_found", "no such message", []⟩
  let versions := versionsFrom root.seq [] g.messages
  if versions.all fun v => v.deletedAt.isSome then return (g, [])
  if ¬((root.sender = me ∧ root.editOf = none ∧ recentOriginal root.createdAt now) ∨ isAdmin m) then
    throw (.forbidden "not_admin" "you can delete only your own recent messages")
  let seqs := versions.map (·.seq)
  let released := g.attachments.rows.filter fun row => row.messageSeq.any seqs.contains
  return ({ g with
    messages := g.messages.map fun (v : Message) =>
      if seqs.contains v.seq ∧ v.deletedAt = none then
        { v with body := none, bytes := 0, deletedAt := some now, revision := v.revision + 1 }
      else v
    attachments := g.attachments.delete fun row => row.messageSeq.any seqs.contains },
    (released.map (·.sha256)).dedup)

/-- `release_attachments` for one message, or for the whole group. -/
def releaseAttachments (seq : Option ℕ) (g : Group) : Group × List Bytes :=
  let gone (row : Attachment) : Bool := seq.isNone || row.messageSeq == seq
  ({ g with attachments := g.attachments.delete gone },
    ((g.attachments.rows.filter gone).map (·.sha256)).dedup)

def expireMessage (now seq : ℕ) (g : Group) : Group :=
  if g.messages.any fun m => m.seq == seq && !unexpired now m.expiresAt then
    { (g.releaseAttachments (some seq)).1 with messages := g.messages.filter fun m => m.seq ≠ seq }
  else g

/-- An upload no message claimed in a day. -/
def unclaimed (now : ℕ) (row : Attachment) : Bool :=
  row.messageSeq.isNone && decide (row.createdAt + unclaimedAttachmentSecs < now)

/-- A batch of expired messages, the expired notices and unclaimed uploads go. -/
def expire (now : ℕ) (picked : List ℕ) (g : Group) : Group :=
  let g := picked.foldl (fun g seq => g.expireMessage now seq) g
  { g with
    notices := g.notices.filter fun n => unexpired now n.expiresAt
    attachments := g.attachments.delete (unclaimed now) }

/-- Deleted long enough ago. -/
def purgeable (now : ℕ) (g : Group) : Bool :=
  g.deletedAt.any fun at_ => decide (at_ + deletedPurgeSecs ≤ now)

/-- A group deleted long enough ago loses its content. -/
def purge (now : ℕ) (g : Group) : Group :=
  if g.purgeable now then
    { (g.releaseAttachments none).1 with
      messages := [], notices := [], handshakes := .empty, members := .empty, intervals := .empty
      bans := .empty, leaves := .empty, welcomes := [], lastSeq := 0 }
  else g

/-- What `sweep_in` does to one group. -/
def clean (now : ℕ) (picked : List ℕ) (purged : Bool) (g : Group) : Group :=
  let g := g.expire now picked
  (if purged then g.purge now else g).pruneHandshakes now

end Group

end Pigeonpost.Groups
