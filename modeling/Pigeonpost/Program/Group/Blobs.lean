import Pigeonpost.Program.Group.Tables

/-! # Attachment blobs (`upload_attachment`, `release_attachments`, `sweep_in`, `blobs.rs`)

Requests run beside each other. A transaction is one step; a blob file is probed, renamed into
place and removed in steps of their own. Whether a step that can fail does so (a refused
transaction, a write, a read) is left open. -/

namespace Pigeonpost.Groups.Blobs

abbrev Digest := Bytes

/-- A row of `group_attachments`. -/
structure Row where
  id : Bytes
  groupId : GroupId
  sha256 : Digest
  messageSeq : Option ℕ
  createdAt : ℕ

/-- The transactions that drop rows. -/
inductive Release where
  /-- All versions of one message. -/
  | deleteMessage (gid : GroupId) (seqs : List ℕ)
  /-- A batch of expired messages and long-deleted groups, and every unclaimed upload. -/
  | sweep (now : ℕ) (expired : List (GroupId × ℕ)) (purged : List GroupId)

def Release.picks : Release → Row → Bool
  | .deleteMessage gid seqs, row => row.groupId = gid ∧ row.messageSeq.any (· ∈ seqs)
  | .sweep now expired purged, row =>
    row.messageSeq.any (fun seq => (row.groupId, seq) ∈ expired) ∨ row.groupId ∈ purged ∨
      row.messageSeq = none ∧ row.createdAt + unclaimedAttachmentSecs < now

/-- Drops the picked rows and returns the digests nothing refers to any more. -/
def releaseAttachments (rows : KeyedTable Row.id) (picks : Row → Bool) :
    KeyedTable Row.id × List Digest :=
  let kept := rows.delete picks
  (kept, (((rows.rows.filter picks).map Row.sha256).dedup).filter fun sha =>
    kept.count (·.sha256 = sha) = 0)

/-- Where a request stands. -/
inductive Task where
  /-- The membership was read; `put` looks for the file. -/
  | probing (gid : GroupId) (sha : Digest)
  /-- No file was there. -/
  | writing (gid : GroupId) (sha : Digest)
  /-- `put` returned. -/
  | put (gid : GroupId) (sha : Digest)
  /-- The row is committed. -/
  | stored (att : Bytes)
  | refused (sha : Digest)
  /-- Files found without references, still to be removed. -/
  | removing (shas : List Digest)
  | finished

structure Store where
  rows : KeyedTable Row.id
  files : List Digest
  tasks : List Task
  /-- The attachments whose upload has returned. -/
  returned : List Bytes

inductive Action where
  | upload (gid : GroupId) (sha : Digest)
  | release (r : Release)
  /-- A post or an edit binds an attachment to its message. -/
  | attach (gid : GroupId) (att : Bytes) (seq : ℕ)
  /-- A request goes on, with the identifier and the time an insertion would take. -/
  | advance (task : ℕ) (fails : Bool) (att : Bytes) (now : ℕ)

namespace Store

def empty : Store := ⟨.empty, [], [], []⟩

/-- The next step of a request. -/
def advance (s : Store) (fails : Bool) (att : Bytes) (now : ℕ) : Task → Store × Task
  | .probing gid sha => (s, if sha ∈ s.files then .put gid sha else .writing gid sha)
  | .writing gid sha =>
    if fails then (s, .finished) else ({ s with files := sha :: s.files }, .put gid sha)
  | .put gid sha =>
    match if fails then none else s.rows.insert ⟨att, gid, sha, none, now⟩ with
    | some rows => ({ s with rows }, .stored att)
    | none => (s, .refused sha)
  | .stored att => ({ s with returned := att :: s.returned }, .finished)
  | .refused sha =>
    -- a count that cannot be read counts as one
    if fails = false ∧ s.rows.count (·.sha256 = sha) = 0 then (s, .removing [sha])
    else (s, .finished)
  | .removing [] => (s, .finished)
  | .removing (sha :: shas) =>
    (if fails then s else { s with files := s.files.filter (· ≠ sha) }, .removing shas)
  | .finished => (s, .finished)

def step (s : Store) : Action → Store
  | .upload gid sha => { s with tasks := s.tasks ++ [.probing gid sha] }
  | .release r =>
    let (rows, gone) := releaseAttachments s.rows r.picks
    { s with rows, tasks := s.tasks ++ [.removing gone] }
  | .attach gid att seq =>
    { s with
      rows := s.rows.update
        (fun row =>
          if row.id = att ∧ row.groupId = gid then { row with messageSeq := some seq } else row)
        fun row => by split <;> rfl }
  | .advance i fails att now =>
    match s.tasks[i]? with
    | none => s
    | some task =>
      let (after, task) := s.advance fails att now task
      { after with tasks := after.tasks.set i task }

def run (actions : List Action) : Store := actions.foldl step empty

end Store

end Pigeonpost.Groups.Blobs
