import Pigeonpost.Library.Hex
import Pigeonpost.Program.Checkpoint

/-! # The witness service (`pigeonpost-witness/src/main.rs`)

It keeps the last checkpoint it accepted and cosigns a new one only after checking
that the new tree extends the kept one. -/

namespace Pigeonpost

/-- A witness and the log it observes. -/
structure Witness where
  name : Bytes
  signingKey : Bytes
  logOrigin : Bytes
  logKey : Bytes

/-- The last checkpoint a witness accepted. -/
structure Stored (H : Type) where
  size : ℕ
  root : H
  /-- The exact note, which monitoring serves back. -/
  note : Bytes
deriving DecidableEq

structure Submission (H : Type) where
  oldSize : ℕ
  proof : List H
  note : Bytes

structure WitnessReply where
  status : ℕ
  contentType : Bytes
  body : Bytes

namespace Witness

def maxRequestBytes : ℕ := 64 * 1024

def maxProofHashes : ℕ := 63

/-! ## Replies -/

def text (status : ℕ) (body : Bytes) : WitnessReply :=
  ⟨status, ascii "text/plain; charset=utf-8", body⟩

def sizeContentType : Bytes := ascii "text/x.tlog.size"

/-- Tells a submitter which size this witness holds. -/
def conflict (size : ℕ) : WitnessReply := ⟨409, sizeContentType, decimal size ++ [newline]⟩

/-! ## Submissions -/

section Submissions

variable {H : Type} [HashBytes H]

/-- The loop over the proof lines of a submission, behind the hashes read before. -/
def readProof : List H → List Bytes → Option (List H)
  | proof, [] => some proof
  | proof, line :: rest =>
    if line.isEmpty then readProof proof rest
    else if proof.length ≥ maxProofHashes then none
    else
      match (Base64.decodeLoop ⟨0, 0⟩ line).bind HashBytes.ofBytes with
      | none => none
      | some hash => readProof (proof ++ [hash]) rest

def parseSubmission (body : Bytes) : Option (Submission H) := do
  let (head, note) ← splitOnceAt [newline, newline] body
  match head.splitOn newline with
  | [] => none
  | first :: rest => do
    let digits ← stripStart (ascii "old ") first
    let oldSize ← parseUnsigned (2 ^ 64) digits
    let proof ← readProof [] rest
    if oldSize = 0 ∧ !proof.isEmpty then none
    else some ⟨oldSize, proof, note⟩

end Submissions

variable {H : Type} [Sha256 H] [HashBytes H] [DecidableEq H] (sigs : Signatures)

/-- The head of `add_checkpoint`: the submission and the checkpoint it carries. -/
def readSubmission (w : Witness) (body : Bytes) :
    Except WitnessReply (Submission H × Checkpoint H) := do
  if body.length > maxRequestBytes then
    throw (text 413 (ascii "submission too large\n"))
  if !isUtf8 body then
    throw (text 400 (ascii "submission is not UTF-8\n"))
  match parseSubmission body with
  | none => throw (text 400 (ascii "malformed submission\n"))
  | some submission =>
    match Checkpoint.verify (H := H) sigs submission.note w.logKey with
    | .error _ => throw (text 403 (ascii "checkpoint signature did not verify\n"))
    | .ok checkpoint =>
      if checkpoint.origin ≠ w.logOrigin then
        throw (text 403 (ascii "checkpoint is for another log\n"))
      if checkpoint.size = 0 ∧ checkpoint.root ≠ emptyRoot then
        throw (text 422 (ascii "empty checkpoint has an invalid root\n"))
      return (submission, checkpoint)

/-- Whether a checkpoint may follow the stored one. A witness without a stored
checkpoint trusts the first one it sees. -/
def checkGrowth (stored : Option (Stored H)) (submission : Submission H)
    (checkpoint : Checkpoint H) : Except WitnessReply Unit :=
  match stored with
  | none => if submission.oldSize ≠ 0 then .error (conflict 0) else .ok ()
  | some stored =>
    if submission.oldSize ≠ stored.size then .error (conflict stored.size)
    else if checkpoint.size = stored.size then
      if checkpoint.root ≠ stored.root then
        .error (text 403 (ascii "tree size unchanged but root differs " ++ signatureStart
          ++ ascii "the log was rewritten\n"))
      else .ok ()
    else if stored.size = 0 then
      if stored.root ≠ emptyRoot then
        .error (text 403 (ascii "stored empty root is invalid\n"))
      else .ok ()
    else if !verifyConsistency stored.size stored.root checkpoint.size checkpoint.root
        submission.proof then
      .error (text 403 (ascii "consistency proof did not verify\n"))
    else .ok ()

/-- What `add_checkpoint` is about to persist, and the cosignature line it answers with. -/
def cosign (w : Witness) (stored : Option (Stored H)) (body : Bytes) (now : ℕ) :
    Except WitnessReply (Stored H × Bytes) := do
  let (submission, checkpoint) ← readSubmission sigs w body
  checkGrowth stored submission checkpoint
  match checkpoint.cosignatureLine sigs w.name w.signingKey now with
  | .error _ => throw (text 500 (ascii "could not cosign\n"))
  | .ok line => return (⟨checkpoint.size, checkpoint.root, submission.note⟩, line)

/-! ## The state file -/

/-- The state as it is written to disk, with the root in hexadecimal. -/
structure StateFile where
  size : ℕ
  root : Bytes
  note : Bytes

def serialize (stored : Stored H) : StateFile :=
  ⟨stored.size, hex (HashBytes.toBytes stored.root), stored.note⟩

def loadState (file : Option StateFile) : Option (Stored H) := do
  let file ← file
  let bytes ← decodeHexPairs file.root
  let root ← HashBytes.ofBytes bytes
  return ⟨file.size, root, file.note⟩

/-- How a call of `save_state` ends. A failed one may have renamed the new file already. -/
inductive Save where
  | written
  | failed (renamed : Bool)

def saveState (save : Save) (file : Option StateFile) (next : Stored H) : Option StateFile :=
  match save with
  | .written | .failed true => some (serialize next)
  | .failed false => file

/-! ## The running service -/

/-- The state behind the lock and the state file. -/
structure Server (H : Type) where
  memory : Option (Stored H)
  file : Option StateFile

def Server.empty : Server H := ⟨none, none⟩

def addCheckpoint (w : Witness) (server : Server H) (body : Bytes) (now : ℕ) (save : Save) :
    Server H × WitnessReply :=
  match cosign sigs w server.memory body now with
  | .error reply => (server, reply)
  | .ok (next, line) =>
    match save with
    | .written => (⟨some next, saveState save server.file next⟩, text 200 line)
    | .failed _ =>
      (⟨server.memory, saveState save server.file next⟩, text 500 (ascii "could not persist\n"))

def monitoring (w : Witness) (server : Server H) (originHash : Bytes) : WitnessReply :=
  if originHash ≠ hex (sigs.sha256 w.logOrigin) then text 404 (ascii "unknown log\n")
  else
    match server.memory with
    | some stored => text 200 stored.note
    | none => text 404 (ascii "nothing observed yet\n")

def restart (server : Server H) : Server H := ⟨loadState server.file, server.file⟩

/-! ## What happens to a witness -/

/-- A crash loses the memory. One in the middle of a request also loses the reply, and
comes before or after the new state file was renamed. -/
inductive Event where
  | submission (body : Bytes) (now : ℕ) (save : Save)
  | crash
  | crashDuring (body : Bytes) (now : ℕ) (renamed : Bool)

/-- A cosignature that left the witness. -/
structure Cosigned (H : Type) where
  timestamp : ℕ
  checkpoint : Checkpoint H

/-- The cosignature in the reply to a submission, which is there once the state is saved. -/
def released (w : Witness) (server : Server H) (body : Bytes) (now : ℕ) (save : Save) :
    List (Cosigned H) :=
  match save, cosign sigs w server.memory body now with
  | .written, .ok (next, _) => [⟨now, ⟨w.logOrigin, next.size, next.root⟩⟩]
  | _, _ => []

def step (w : Witness) (server : Server H) : Event → Server H × List (Cosigned H)
  | .submission body now save =>
    ((addCheckpoint sigs w server body now save).1, released sigs w server body now save)
  | .crash => (restart server, [])
  | .crashDuring body now renamed =>
    (restart (addCheckpoint sigs w server body now (.failed renamed)).1, [])

end Witness

end Pigeonpost
