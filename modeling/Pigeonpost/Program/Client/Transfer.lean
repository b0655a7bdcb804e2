import Pigeonpost.Program.Client.Audit

/-! # Log transfer of a registry client (`pigeonpost-registry/src/client.rs`)

An audit sends no request twice, so one reply for each request covers every sequence
of responses. A request that times out has a failed reply or one that breaks off. -/

namespace Pigeonpost

def maxResponseBytes : ℕ := 1024 * 1024

def auditPageEntries : ℕ := 256

def auditDumpSegmentEntries : ℕ := 8192

def maxAuditDumpLineBytes : ℕ := 64 * 1024

def maxAuditSegmentBytes : ℕ := 32 * 1024 * 1024

/-! ## Requests and replies -/

/-- The requests of one audit. `entry` and `page` share a route, but a server may
answer them differently. -/
inductive Request where
  | resolve (nameSpace name : Bytes)
  | consistency (start finish : ℕ)
  | entry (start finish : ℕ)
  | dump (start finish : ℕ)
  | page (start finish : ℕ)

/-- What a request meets: no response, or a status line with a body in chunks that
ends cleanly or breaks off. -/
inductive Reply where
  | failed
  | response (status : ℕ) (contentLength : Option ℕ) (chunks : List Bytes) (complete : Bool)

abbrev Registry := Request → Reply

structure InclusionProof where
  treeSize : ℕ
  root : Bytes
  path : List Bytes
  checkpoint : Bytes

structure ResolveResponse where
  handle : Bytes
  pubkey : Bytes
  logIndex : ℕ
  inclusionProof : InclusionProof

structure EntriesResponse where
  start : ℕ
  finish : ℕ
  treeSize : ℕ
  root : Bytes
  checkpoint : Bytes
  entries : List LogEntry

structure ConsistencyResponse where
  start : ℕ
  finish : ℕ
  root : Bytes
  path : List Bytes

/-- The strict decoders of `serde_json`. -/
structure JsonDecoders where
  resolve : Bytes → Option ResolveResponse
  entries : Bytes → Option EntriesResponse
  consistency : Bytes → Option ConsistencyResponse
  entry : Bytes → Option LogEntry

def isSuccess (status : ℕ) : Bool := 200 ≤ status && status < 300

/-- The loop over the chunks of a body. -/
def readBody : Bytes → List Bytes → Bool → Except RegistryError Bytes
  | body, [], complete => if complete then .ok body else .error .registryUnavailable
  | body, chunk :: chunks, complete =>
    if body.length + chunk.length > maxResponseBytes then
      .error (.malformedEntry "registry response exceeds the client limit")
    else readBody (body ++ chunk) chunks complete

def getJson {T : Type} (decode : Bytes → Option T) (reply : Reply) : Except RegistryError T :=
  match reply with
  | .failed => .error .registryUnavailable
  | .response status _ chunks complete =>
    if status = 404 then .error .notFound
    else if !isSuccess status then .error .registryUnavailable
    else do
      let body ← readBody [] chunks complete
      match decode body with
      | none => throw .serialization
      | some value => return value

/-! ## Streamed segments -/

inductive AuditDumpOutcome where
  | complete
  | useRangePages

structure DumpCpuState (A : Type) where
  accumulator : A
  pending : Bytes
  index : ℕ

section Transfer

variable {A : Type} [AuditAccumulator A] (prim : Primitives) (json : JsonDecoders)

/-- One complete line of a dump. -/
def processDumpLine (state : DumpCpuState A) (finish : ℕ) :
    Except RegistryError (DumpCpuState A × Option AuditDumpOutcome) :=
  if state.pending.isEmpty then
    .error (.malformedEntry "registry dump contains an empty entry")
  else
    match json.entry state.pending with
    | none => .error (.malformedEntry "registry dump entry is malformed")
    | some entry =>
      if state.index ≥ finish then
        if state.index = finish ∧ entry.seq.toNat = state.index
            ∧ (entry.leafBytes prim).isOk then
          .ok ({ state with pending := [] }, some .useRangePages)
        else .error (.malformedEntry "registry dump contains entries outside its exact range")
      else do
        let accumulator ← AuditAccumulator.append prim state.accumulator entry state.index
        return (⟨accumulator, [], state.index + 1⟩, none)

theorem length_splitOnce_lt {sep : UInt8} {text before after : Bytes}
    (h : splitOnce sep text = some (before, after)) : after.length < text.length := by
  obtain ⟨rfl, -⟩ := splitOnce_eq_some h
  simp
  omega

/-- The loop over the lines of a chunk. -/
def processDumpChunk (state : DumpCpuState A) (remaining : Bytes) (finish : ℕ) :
    Except RegistryError (DumpCpuState A × Option AuditDumpOutcome) :=
  if remaining.isEmpty then .ok (state, none)
  else
    match _hsplit : splitOnce 0x0a remaining with
    | none =>
      if state.pending.length + remaining.length > maxAuditDumpLineBytes then
        .error (.malformedEntry "registry dump entry exceeds the client limit")
      else .ok ({ state with pending := state.pending ++ remaining }, none)
    | some (line, rest) =>
      if state.pending.length + line.length > maxAuditDumpLineBytes then
        .error (.malformedEntry "registry dump entry exceeds the client limit")
      else do
        let (state, outcome) ←
          processDumpLine prim json { state with pending := state.pending ++ line } finish
        match outcome with
        | some outcome => return (state, some outcome)
        | none => processDumpChunk state rest finish
termination_by remaining.length
decreasing_by exact length_splitOnce_lt _hsplit

/-- The loop over the chunks of a dump. -/
def processDump (finish : ℕ) : DumpCpuState A → ℕ → List Bytes → Bool →
    Except RegistryError (A × AuditDumpOutcome)
  | state, _, [], complete =>
    if !complete then .ok (state.accumulator, .useRangePages)
    else if state.index = finish ∧ state.pending.isEmpty then .ok (state.accumulator, .complete)
    else if state.index < finish then .ok (state.accumulator, .useRangePages)
    else .error (.malformedEntry "registry dump contains trailing partial data")
  | state, transferred, chunk :: chunks, complete =>
    if transferred + chunk.length > maxAuditSegmentBytes then
      .ok (state.accumulator, .useRangePages)
    else do
      let (state, outcome) ← processDumpChunk prim json state chunk finish
      match outcome with
      | some outcome => return (state.accumulator, outcome)
      | none => processDump finish state (transferred + chunk.length) chunks complete

/-- The statuses that send a segment to the page route. -/
def isDeliveryFailure (status : ℕ) : Bool :=
  [404, 405, 501, 408, 413, 429, 503, 504].contains status

def auditDumpRange (registry : Registry) (start finish : ℕ) (accumulator : A) :
    Except RegistryError (A × AuditDumpOutcome) :=
  if start = finish then .ok (accumulator, .complete)
  else if start > finish ∨ finish - start > auditDumpSegmentEntries then
    .error (.invalidConfiguration "registry dump segment is outside the client bound")
  else
    match registry (.dump start finish) with
    | .failed => .ok (accumulator, .useRangePages)
    | .response status contentLength chunks complete =>
      if isDeliveryFailure status then .ok (accumulator, .useRangePages)
      else if !isSuccess status then .error .registryUnavailable
      else if contentLength.any (· > maxAuditSegmentBytes) then
        .ok (accumulator, .useRangePages)
      else processDump prim json finish ⟨accumulator, [], start⟩ 0 chunks complete

/-! ## Range pages -/

/-- The loop over the pages of a range. -/
def auditJsonPages (registry : Registry) (start finish : ℕ) (accumulator : A) :
    Except RegistryError A :=
  if _h : start < finish then do
    let pageTo := min (start + auditPageEntries) finish
    let page ← getJson json.entries (registry (.page start pageTo))
    if page.start ≠ start ∨ page.finish ≠ pageTo ∨ page.entries.length ≠ pageTo - start
        ∨ page.treeSize < pageTo then
      throw (.malformedEntry "registry audit page is not the requested continuous range")
    let accumulator ← appendEntries prim accumulator start page.entries
    auditJsonPages registry pageTo finish accumulator
  else .ok accumulator
termination_by finish - start
decreasing_by
  simp only [auditPageEntries]
  omega

end Transfer

end Pigeonpost
