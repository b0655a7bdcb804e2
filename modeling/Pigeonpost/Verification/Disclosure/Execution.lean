import Pigeonpost.Program.Disclosure.Ledger
import Pigeonpost.Verification.Disclosure.CrashRecovery
import Pigeonpost.Verification.Disclosure.Requests
import Pigeonpost.Verification.Disclosure.TwoPhase
import Pigeonpost.Verification.Shared.SampleSeal

/-! # Executions of disclosures

Requests are made, copied, approved, denied and executed in any order, against a ledger
that is opened and closed, and whose process or machine may stop anywhere. -/

namespace Pigeonpost

open Script DisclosureLedger Custody DisclosureRequest LedgerSystem

variable {α : Type} {startedAtMs : UInt64}

/-! ## What an operation rests on -/

/-- The leaf that announced an operation. -/
def PerformedDisclosure.intentLeaf (performed : PerformedDisclosure) : DisclosureLeaf :=
  .intent (performed.request.intent performed.startedAtMs)

/-- When the operation started, two different keys had approved its request, the request had
not expired, and its intent was in the ledger file for good. -/
structure PerformedDisclosure.Lawful (prim : CryptoPrimitives) (performed : PerformedDisclosure) :
    Prop where
  authorization : performed.authorization = ⟨performed.request.requestId,
    performed.request.jurisdiction, performed.request.purpose, performed.request.keyIds⟩
  identified : performed.request.Identified prim
  approvals : ∃ first second, performed.request.approverKeys = [first, second] ∧ first ≠ second ∧
    performed.request.ApprovedBy prim first ∧ performed.request.ApprovedBy prim second
  unexpired : performed.startedAtMs ≤ performed.request.expiresAtMs
  durable : ∃ encoded, performed.intentLeaf.encode = .ok encoded ∧
    ∀ crash, ∃ leaves, encoded ∈ leaves ∧ logBytes leaves <+: (performed.disk.crash crash).content

/-- The operations so far are lawful, each request was operated on once, and the ledger file
keeps leaves among which are all their intents. -/
structure InCustody (prim : CryptoPrimitives) (custody : Custody) (durable : List Bytes) :
    Prop where
  lawful : ∀ performed ∈ custody.performed, performed.Lawful prim
  once : (custody.performed.map fun performed => performed.request.requestId).Nodup
  announced : ∀ performed ∈ custody.performed,
    ∃ encoded ∈ durable, performed.intentLeaf.encode = .ok encoded
  sized : ∀ encoded ∈ durable, encoded.length ≤ maxLeafBytes
  holds : custody.disk.ledger.data.Holds (logBytes durable)

theorem Custody.onDisk_bind_pure {β : Type} (x : Script Disk α) (f : α → β) (custody : Custody) :
    onDisk (x >>= fun a => pure (f a)) custody =
      ⟨f (onDisk x custody).value, (onDisk x custody).final, (onDisk x custody).passed⟩ := by
  simp [onDisk, focus, bind_apply]

section Custody

open List

variable {H : Type} [Sha256 H] [HashBytes H] {prim : CryptoPrimitives} {hmac : Hmac} {key : Bytes}
  {custody : Custody} {durable leaves : List Bytes} {ledger : DisclosureLedger H}
  {c settled : Commitment H} {disk : Disk}

theorem InCustody.onDisk (h : InCustody prim custody durable)
    (hh : disk.ledger.data.Holds (logBytes durable)) :
    InCustody prim { custody with disk } durable :=
  ⟨h.lawful, h.once, h.announced, h.sized, hh⟩

/-- Leaves of the file that are synced count as kept. -/
theorem InCustody.extend (h : InCustody prim custody durable) (hg : durable <+: leaves)
    (hs : ∀ encoded ∈ leaves, encoded.length ≤ maxLeafBytes)
    (hh : disk.ledger.data.Holds (logBytes leaves)) :
    InCustody prim { custody with disk } leaves := by
  refine ⟨h.lawful, h.once, ?_, hs, hh⟩
  intro performed hm
  obtain ⟨encoded, he, hl⟩ := h.announced performed hm
  exact ⟨encoded, hg.subset he, hl⟩

theorem Disk.holds_crash {start : Bytes} (h : disk.ledger.data.Holds start) (crash : Crash) :
    (disk.crash crash).ledger.data.Holds start := by
  cases crash with
  | kill => exact h
  | powerLoss ledgerKept => exact h.powerLoss ledgerKept

theorem InCustody.mem_decodeLeaves (h : InCustody prim custody durable) (hk : durable <+: leaves)
    {performed : PerformedDisclosure} (hp : performed ∈ custody.performed) :
    performed.intentLeaf ∈ decodeLeaves leaves := by
  obtain ⟨encoded, he, hl⟩ := h.announced performed hp
  refine mem_filterMap.mpr ⟨encoded, hk.subset he, ?_⟩
  rw [DisclosureLeaf.decode_encode hl]
  rfl

omit [HashBytes H] in
/-- A request that was operated on is announced already. -/
theorem InCustody.fresh (h : InCustody prim custody durable) (hk : durable <+: leaves)
    (hr : Replays leaves ledger.index) {intent : DisclosureIntent}
    (hv : ledger.index.validateLeaf (.intent intent) = .ok ()) :
    intent.requestId ∉ custody.performed.map fun performed => performed.request.requestId := by
  intro hm
  obtain ⟨performed, hp, hid⟩ := mem_map.mp hm
  exact LedgerIndex.fresh_of_validateLeaf hv
    ((hr.twoPhase.2.requestIds _).mpr ⟨_, h.mem_decodeLeaves hk hp, hid⟩)

theorem InCustody.perform (h : InCustody prim custody durable)
    {authorization : AuthorizedDisclosure} {request : DisclosureRequest}
    (hl : PerformedDisclosure.Lawful prim ⟨authorization, request, startedAtMs, custody.disk⟩)
    (hf : request.requestId ∉ custody.performed.map fun performed => performed.request.requestId)
    (ha : ∃ encoded ∈ durable,
      (DisclosureLeaf.intent (request.intent startedAtMs)).encode = .ok encoded) :
    InCustody prim (custody.perform authorization request startedAtMs) durable := by
  refine ⟨forall_mem_append.mpr ⟨h.lawful, forall_mem_singleton.mpr hl⟩, ?_,
    forall_mem_append.mpr ⟨h.announced, forall_mem_singleton.mpr ha⟩, h.sized, h.holds⟩
  rw [Custody.perform, map_append, nodup_append]
  refine ⟨h.once, nodup_singleton _, ?_⟩
  intro id hid other ho
  obtain rfl := mem_singleton.mp ho
  intro heq
  obtain rfl : id = request.requestId := heq
  exact hf hid

variable {request : DisclosureRequest}

theorem DisclosureRequest.Sound.lawful (h : request.Sound prim) (hs : request.state = .authorized)
    (he : startedAtMs ≤ request.expiresAtMs) {encoded : Bytes}
    (henc : (DisclosureLeaf.intent (request.intent startedAtMs)).encode = .ok encoded)
    (hm : encoded ∈ durable) (hh : disk.ledger.data.Holds (logBytes durable)) :
    PerformedDisclosure.Lawful prim
      ⟨⟨request.requestId, request.jurisdiction, request.purpose, request.keyIds⟩,
        { request with state := .consumed }, startedAtMs, disk⟩ where
  authorization := rfl
  identified := h.identified
  approvals := by
    obtain ⟨first, second, hk⟩ := length_eq_two.mp (h.authorized (.inl hs))
    have hd := h.distinct
    rw [hk, nodup_cons, mem_singleton] at hd
    exact ⟨first, second, hk, hd.1, h.approved first (by simp [hk]),
      h.approved second (by simp [hk])⟩
  unexpired := he
  durable := ⟨encoded, henc, fun crash =>
    ⟨durable, hm, (Disk.holds_crash hh crash).content⟩⟩

/-- A process serves a directory, or nobody does. -/
inductive Serves (hmac : Hmac) (key : Bytes) (disk : Disk) (durable : List Bytes) :
    Option (DisclosureLedger H) → Prop where
  | running {ledger : DisclosureLedger H} {leaves : List Bytes} {c settled : Commitment H}
    (live : Live hmac key ledger disk leaves c settled) (kept : durable <+: leaves) :
    Serves hmac key disk durable (some ledger)
  | stopped {held : List Bytes} {inFlight : Option Bytes}
    (consistent : Consistent H hmac key disk held inFlight) : Serves hmac key disk durable none

/-- What every point of every run keeps. -/
def Guarded (prim : CryptoPrimitives) (hmac : Hmac) (key : Bytes) (custody : Custody)
    (process : Option (DisclosureLedger H)) : Prop :=
  ∃ durable, InCustody prim custody durable ∧ Serves hmac key custody.disk durable process

variable {process : Option (DisclosureLedger H)}

theorem Guarded.stop (h : Guarded prim hmac key custody process) :
    Guarded prim hmac key custody (none : Option (DisclosureLedger H)) := by
  obtain ⟨durable, hc, hs⟩ := h
  cases hs with
  | running live => exact ⟨durable, hc, .stopped ⟨_, _, live.carries⟩⟩
  | stopped consistent => exact ⟨durable, hc, .stopped consistent⟩

def Custody.crash (custody : Custody) (crash : Crash) : Custody :=
  { custody with disk := custody.disk.crash crash }

theorem Guarded.crash (h : Guarded prim hmac key custody process) (crash : Crash) :
    Guarded prim hmac key (custody.crash crash) (none : Option (DisclosureLedger H)) := by
  obtain ⟨durable, hc, hs⟩ := h.stop
  cases hs with
  | stopped consistent =>
    exact ⟨durable, hc.onDisk (Disk.holds_crash hc.holds crash), .stopped (consistent.crash crash)⟩

theorem Live.sized (h : Live hmac key ledger disk leaves c settled) :
    ∀ encoded ∈ leaves, encoded.length ≤ maxLeafBytes :=
  fun encoded hm => (h.replays.size encoded hm).2

theorem Live.holds (h : Live hmac key ledger disk leaves c settled)
    (hs : disk.ledger.data.synced = disk.content) : disk.ledger.data.Holds (logBytes leaves) := by
  have hc : disk.ledger.data.content = logBytes leaves := h.content
  exact ⟨hc ▸ prefix_rfl, hs ▸ hc ▸ prefix_rfl⟩

variable [DecidableEq H]

/-! ## Appending under custody -/

section

variable (h32 : Hashes32 H) (h : Live hmac key ledger custody.disk leaves c settled)
  (hc : InCustody prim custody durable)

include h32 h hc

/-- An append is refused and changes nothing, or ends with the leaf kept for good. -/
theorem Live.append_inCustody (hkept : durable <+: leaves) (leaf : DisclosureLeaf) :
    (∃ e, onDisk (ledger.append hmac leaf) custody = ⟨(.error e, ledger), custody, []⟩) ∨
    ∃ encoded next final passed, leaf.encode = .ok encoded ∧
      ledger.index.validateLeaf leaf = .ok () ∧
      onDisk (ledger.append hmac leaf) custody =
        ⟨(.ok (), next), { custody with disk := final }, passed⟩ ∧
      (∃ c settled : Commitment H, Live hmac key next final (leaves ++ [encoded]) c settled) ∧
      InCustody prim { custody with disk := final } (leaves ++ [encoded]) ∧
      ∀ stop ∈ passed, Guarded prim hmac key stop (none : Option (DisclosureLedger H)) := by
  cases hp : ledger.prepareAppend leaf with
  | error e => exact .inl ⟨e, focus_apply_of_eq (append_of_error hp)⟩
  | ok prepared =>
    obtain ⟨he, next, final, passed, hr, ⟨c', settled', hl⟩, hs, hstops⟩ := h.append_run h32 hp
    have hv : ledger.index.validateLeaf leaf = .ok () := by
      simp only [prepareAppend, ok_iff] at hp
      obtain ⟨-, -, _, hv, -⟩ := hp
      exact hv
    refine .inr ⟨prepared.encoded, next, final, _, he, hv, focus_apply_of_eq hr, ⟨c',
      settled', hl⟩, hc.extend (hkept.trans (prefix_append _ _)) hl.sized (hl.holds hs), ?_⟩
    intro stop hstop
    obtain ⟨disk, hd, rfl⟩ := mem_map.mp hstop
    obtain ⟨hcon, hk⟩ := hstops disk (mem_cons_of_mem _ hd)
    exact ⟨durable, hc.onDisk (hk _ hc.holds), .stopped hcon⟩

/-- A program that appends at most one leaf. -/
inductive AppendsOne (hmac : Hmac) (ledger : DisclosureLedger H) {α : Type} :
    Script Disk (α × DisclosureLedger H) → Prop where
  | none (answer : α) : AppendsOne hmac ledger (pure (answer, ledger))
  | one (leaf : DisclosureLeaf) (answer : Except ComplianceError Unit → α) :
    AppendsOne hmac ledger (ledger.append hmac leaf >>= fun appended =>
      pure (answer appended.1, appended.2))

theorem Live.appendsOne (hk : durable <+: leaves)
    {x : Script Disk (α × DisclosureLedger H)} (hx : AppendsOne hmac ledger x) :
    Guarded prim hmac key (onDisk x custody).final (some (onDisk x custody).value.2) ∧
      ∀ stop ∈ (onDisk x custody).passed,
        Guarded prim hmac key stop (none : Option (DisclosureLedger H)) := by
  have hs : Guarded prim hmac key custody (some ledger) := ⟨durable, hc, .running h hk⟩
  cases hx with
  | none => exact ⟨hs, nofun⟩
  | one leaf =>
    rw [onDisk_bind_pure]
    rcases h.append_inCustody h32 hc hk leaf with ⟨e, hr⟩ |
      ⟨encoded, next, final, passed, -, -, hr, ⟨c', settled', hl⟩, hn, hstops⟩
    · rw [hr]
      exact ⟨hs, nofun⟩
    · rw [hr]
      exact ⟨⟨_, hn, .running hl prefix_rfl⟩, hstops⟩

end

theorem appendsOne_closeIncompleteFailure (ledger : DisclosureLedger H) (requestId : Bytes32)
    (timestampMs : UInt64) :
    AppendsOne hmac ledger (ledger.closeIncompleteFailure prim hmac requestId timestampMs) := by
  unfold closeIncompleteFailure
  cases ledger.index.incomplete.lookup requestId with
  | none => exact .none _
  | some =>
    have heq : ledger.appendFailure prim hmac requestId timestampMs =
        ledger.append hmac (failureLeaf prim requestId timestampMs) >>=
          fun appended => pure (id appended.1, appended.2) := by
      funext disk
      simp [appendFailure, bind_apply]
    simp only [heq]
    exact .one _ id

theorem appendsOne_complete {T : Type} (ledger : DisclosureLedger H) (requestId : Bytes32)
    (startedAtMs : UInt64) (completionClock : Except ComplianceError UInt64)
    (result : Except ComplianceError (DisclosureOutput T)) :
    AppendsOne hmac ledger
      (ledger.complete prim hmac requestId startedAtMs completionClock result) := by
  unfold complete
  cases completionClock with
  | error => exact .none _
  | ok =>
    dsimp only
    split
    · exact .none _
    cases result with
    | error error => exact .one _ fun appended => appended.bind fun _ => .error error
    | ok output =>
      dsimp only
      split
      · exact .one _ fun appended => appended.map fun _ => output.value
      · exact .one _ fun appended => appended.bind fun _ => .error .invalidRequest

/-! ## Executing -/

/-- An execution keeps everything guarded, wherever it stops. -/
theorem Live.execute_guarded (h32 : Hashes32 H)
    (h : Live hmac key ledger custody.disk leaves c settled)
    (hcus : InCustody prim custody durable) (hk : durable <+: leaves) (hreq : request.Sound prim)
    (startedAtMs : UInt64) (completionClock : Except ComplianceError UInt64) {T : Type}
    (operation : DisclosureOperation T) :
    ∃ executed final passed, ledger.execute prim hmac request startedAtMs completionClock operation
        custody = ⟨executed, final, passed⟩ ∧
      Guarded prim hmac key final (some executed.ledger) ∧ executed.request.Sound prim ∧
      ∀ stop ∈ passed, Guarded prim hmac key stop (none : Option (DisclosureLedger H)) := by
  have hstill : Guarded prim hmac key custody (some ledger) := ⟨durable, hcus, .running h hk⟩
  unfold execute
  cases hcheck : request.ensureAuthorized startedAtMs with
  | mk outcome checked =>
    have hc : checked.Sound prim := by
      have hsound := hreq.ensureAuthorized startedAtMs
      rwa [hcheck] at hsound
    cases outcome with
    | error => exact ⟨_, _, _, rfl, hstill, hc, nofun⟩
    | ok =>
      obtain ⟨rfl, hstate, he⟩ := of_ensureAuthorized hcheck
      rcases h.append_inCustody h32 hcus hk (.intent (checked.intent startedAtMs)) with
        ⟨e, hrun⟩ | ⟨encoded, next, disk, stops, henc, hv, hrun, ⟨c', settled', hl⟩, hn, hstops⟩
      · exact ⟨_, _, _, bind_apply_of_eq hrun _, hstill, hc, nofun⟩
      · have hm : encoded ∈ leaves ++ [encoded] := by simp
        -- the intent is kept, so the operation may start
        have hp := hn.perform (hc.lawful hstate he henc hm hn.holds)
          (hcus.fresh hk h.replays hv) ⟨encoded, hm, henc⟩
        obtain ⟨hf, hlate⟩ := Live.appendsOne h32 (show Live hmac key next (perform
            ⟨checked.requestId, checked.jurisdiction, checked.purpose, checked.keyIds⟩ { checked
            with state := .consumed } startedAtMs { custody with disk }).disk (leaves ++ [encoded])
            c' settled' from hl)
          hp prefix_rfl (appendsOne_complete next checked.requestId startedAtMs
            completionClock (operation ⟨checked.requestId, checked.jurisdiction, checked.purpose,
              checked.keyIds⟩))
        refine ⟨_, _, _, bind_apply_of_eq hrun _, ?_⟩
        rw [consume_eq hstate he]
        refine ⟨hf, hc.of_state (fun _ => hc.authorized (.inl hstate)), ?_⟩
        intro stop hs
        simp only [bind_apply, act_apply, pure_apply, mem_append,
          mem_cons, append_nil, singleton_append] at hs
        rcases hs with hs | rfl | hs
        · exact hstops stop hs
        · exact Guarded.stop ⟨_, hn, .running hl prefix_rfl⟩
        · exact hlate stop hs

/-! ## Opening -/

/-- An open that is refused changes nothing; one that succeeds hands out every leaf that was
kept; both keep everything guarded, wherever they stop. -/
theorem Guarded.openLedger (h32 : Hashes32 H)
    (h : Guarded prim hmac (deriveStateAuthenticationKey H secret) custody
      (none : Option (DisclosureLedger H))) :
    ∃ answer final passed, onDisk
        (openLedger hmac secret : LedgerIO (DisclosureLedger H)).run custody =
          ⟨answer, final, passed⟩ ∧
      Guarded prim hmac (deriveStateAuthenticationKey H secret) final answer.toOption ∧
      ∀ stop ∈ passed, Guarded prim hmac (deriveStateAuthenticationKey H secret) stop
        (none : Option (DisclosureLedger H)) := by
  obtain ⟨durable, hc, hser⟩ := h
  cases hser with
  | stopped consistent =>
    obtain ⟨current, settled, hcar⟩ := consistent
    cases ho : (openCommitted hmac (deriveStateAuthenticationKey H secret)
        custody.disk : Except ComplianceError (DisclosureLedger H)) with
    | error =>
      refine ⟨_, _, _, focus_apply_of_eq (openLedger_run_of_error ho), ?_, nofun⟩
      exact ⟨durable, hc, .stopped ⟨current, settled, hcar⟩⟩
    | ok =>
      obtain ⟨leaves, opened, final, passed, hr, ⟨c, before, hl⟩, -, -, hk, hstops⟩ :=
        openLedger_spec h32 hcar (hcar.matches_of_openCommitted h32 ho)
      obtain ⟨hkept, hh⟩ := hk durable hc.sized hc.holds
      refine ⟨_, _, _, focus_apply_of_eq hr, ?_, ?_⟩
      · exact ⟨durable, hc.onDisk (hh final mem_cons_self), .running hl hkept⟩
      · intro stop hs
        obtain ⟨disk, hd, rfl⟩ := mem_map.mp hs
        obtain ⟨held, hcon⟩ := hstops disk (mem_cons_of_mem _ hd)
        exact ⟨durable, hc.onDisk (hh disk (mem_cons_of_mem _ hd)), .stopped hcon⟩

end Custody

/-! ## Runs -/

/-- Custody, ledger process and requests. -/
structure DisclosureSystem (H : Type) where
  custody : Custody
  process : Option (DisclosureLedger H)
  /-- The requests at hand. They may outlive the ledger they are used with. -/
  requests : List DisclosureRequest

/-- Calls on requests and ledger, and crashes. -/
inductive DisclosureEvent (T : Type) where
  | newRequest (jurisdiction : Jurisdiction) (purpose : CompliancePurpose)
    (keyIds : List ComplianceKeyId) (createdAtMs expiresAtMs : UInt64)
    (sensitive : SensitiveRequestMaterial)
    (orderDraws requesterDraws selectorDraws : List Bytes32)
  | cloneRequest (index : ℕ)
  | approve (index : ℕ) (publicKey : Bytes32) (approvedAtMs : UInt64)
    (signature : Vector UInt8 64) (draws : List Bytes32)
  | deny (index : ℕ) (atMs : UInt64)
  | execute (index : ℕ) (startedAtMs : UInt64) (completionClock : Except ComplianceError UInt64)
    (operation : DisclosureOperation T)
  /-- An execution that stops after so many actions. -/
  | crashedExecute (index : ℕ) (startedAtMs : UInt64)
    (completionClock : Except ComplianceError UInt64) (operation : DisclosureOperation T)
    (actions : ℕ) (crash : Crash)
  | closeIncomplete (requestId : Bytes32) (timestampMs : UInt64)
  | crashedClose (requestId : Bytes32) (timestampMs : UInt64) (actions : ℕ) (crash : Crash)
  | openLedger
  | crashedOpen (actions : ℕ) (crash : Crash)
  | closeLedger
  | crash (crash : Crash)

namespace DisclosureSystem

open List

variable {H T : Type} [Sha256 H] [HashBytes H] [DecidableEq H]

section Step

variable (prim : CryptoPrimitives) (hmac : Hmac) (secret : Bytes32)

section Execute

variable (s : DisclosureSystem H) (index : ℕ) (startedAtMs : UInt64)
  (completionClock : Except ComplianceError UInt64) (operation : DisclosureOperation T)

def executeStep : DisclosureSystem H :=
  match s.process, s.requests[index]? with
  | some ledger, some request =>
    let run := ledger.execute prim hmac request startedAtMs completionClock operation s.custody
    ⟨run.final, some run.value.ledger, s.requests.set index run.value.request⟩
  | _, _ => s

def crashedExecuteStep (actions : ℕ) (crash : Crash) : DisclosureSystem H :=
  match s.process, s.requests[index]? with
  | some ledger, some request =>
    ⟨(Script.stopAfter (ledger.execute prim hmac request startedAtMs completionClock operation)
      actions s.custody).crash crash, none, s.requests⟩
  | _, _ => s

end Execute

def updateRequest (s : DisclosureSystem H) (index : ℕ)
    (call : DisclosureRequest → Option DisclosureRequest) : DisclosureSystem H :=
  match s.requests[index]?.bind call with
  | some request => { s with requests := s.requests.set index request }
  | none => s

def step (s : DisclosureSystem H) : DisclosureEvent T → DisclosureSystem H
  | .newRequest jurisdiction purpose keyIds createdAtMs expiresAtMs sensitive orderDraws
    requesterDraws selectorDraws =>
    match DisclosureRequest.new prim jurisdiction purpose keyIds createdAtMs expiresAtMs sensitive
        orderDraws requesterDraws selectorDraws with
    | some (.ok (request, _)) => { s with requests := s.requests ++ [request] }
    | _ => s
  | .cloneRequest index => { s with requests := s.requests ++ s.requests[index]?.toList }
  | .approve index publicKey approvedAtMs signature draws =>
    s.updateRequest index fun request =>
      (request.approve prim publicKey approvedAtMs signature draws).map Prod.snd
  | .deny index atMs => s.updateRequest index fun request => some (request.deny atMs).2
  | .execute index startedAtMs completionClock operation =>
    s.executeStep prim hmac index startedAtMs completionClock operation
  | .crashedExecute index startedAtMs completionClock operation actions crash =>
    s.crashedExecuteStep prim hmac index startedAtMs completionClock operation actions crash
  | .closeIncomplete requestId timestampMs =>
    match s.process with
    | some ledger =>
      let run := Custody.onDisk
        (ledger.closeIncompleteFailure prim hmac requestId timestampMs) s.custody
      { s with custody := run.final, process := some run.value.2 }
    | none => s
  | .crashedClose requestId timestampMs actions crash =>
    match s.process with
    | some ledger =>
      { s with
        custody := (Script.stopAfter (Custody.onDisk
          (ledger.closeIncompleteFailure prim hmac requestId timestampMs)) actions
            s.custody).crash crash
        process := none }
    | none => s
  | .openLedger =>
    match s.process with
    | some _ => s
    | none =>
      let run := Custody.onDisk
        (DisclosureLedger.openLedger hmac secret : LedgerIO (DisclosureLedger H)).run s.custody
      { s with custody := run.final, process := run.value.toOption }
  | .crashedOpen actions crash =>
    match s.process with
    | some _ => s
    | none =>
      { s with
        custody := (Script.stopAfter (Custody.onDisk
          (DisclosureLedger.openLedger hmac secret : LedgerIO (DisclosureLedger H)).run) actions
            s.custody).crash crash }
  | .closeLedger => { s with process := none }
  | .crash crash => { s with custody := s.custody.crash crash, process := none }

def run (s : DisclosureSystem H) (events : List (DisclosureEvent T)) : DisclosureSystem H :=
  events.foldl (step prim hmac secret) s

end Step

def created (hmac : Hmac) (secret : Bytes32) (dev ino : UInt64) (clock : ℕ → Ctime) :
    DisclosureSystem H :=
  let run := (DisclosureLedger.create hmac secret : LedgerIO (DisclosureLedger H)).run
    (Disk.created dev ino clock)
  ⟨⟨run.final, []⟩, run.value.toOption, []⟩

/-- The guarantees of two-phase disclosure. No two operations share a request, so that no
approval is used twice. -/
structure Laws (prim : CryptoPrimitives) (s : DisclosureSystem H) : Prop where
  twoPhase : ∀ ledger, s.process = some ledger →
    TwoPhase (decodeLeaves (ledger.held s.custody.disk))
  announced : ∀ ledger, s.process = some ledger → ∀ performed ∈ s.custody.performed,
    performed.intentLeaf ∈ decodeLeaves (ledger.held s.custody.disk)
  lawful : ∀ performed ∈ s.custody.performed, performed.Lawful prim
  once : (s.custody.performed.map fun performed => performed.request.requestId).Nodup

variable {prim : CryptoPrimitives} {hmac : Hmac} {secret : Bytes32} {s : DisclosureSystem H}

/-- Sound requests and guarded custody. -/
structure Sound (prim : CryptoPrimitives) (hmac : Hmac) (secret : Bytes32)
    (s : DisclosureSystem H) : Prop where
  requests : ∀ request ∈ s.requests, request.Sound prim
  guarded : Guarded prim hmac (deriveStateAuthenticationKey H secret) s.custody s.process

omit [DecidableEq H] in
theorem Sound.laws (h : s.Sound prim hmac secret) : s.Laws prim := by
  obtain ⟨durable, hc, hs⟩ := h.guarded
  refine ⟨?_, ?_, hc.lawful, hc.once⟩
  · intro ledger hl
    rw [hl] at hs
    cases hs with
    | running live =>
      rw [live.held.1]
      exact live.replays.twoPhase.1
  · intro ledger hl performed hm
    rw [hl] at hs
    cases hs with
    | running live kept =>
      rw [live.held.1]
      exact hc.mem_decodeLeaves kept hm

omit [DecidableEq H] in
theorem Sound.updateRequest (h : s.Sound prim hmac secret) (index : ℕ)
    {call : DisclosureRequest → Option DisclosureRequest}
    (hc : ∀ request next, request.Sound prim → call request = some next → next.Sound prim) :
    (s.updateRequest index call).Sound prim hmac secret := by
  unfold DisclosureSystem.updateRequest
  cases hn : s.requests[index]?.bind call with
  | none => exact h
  | some =>
    obtain ⟨request, hg, hr⟩ := Option.bind_eq_some_iff.mp hn
    refine ⟨?_, h.guarded⟩
    intro other ho
    rcases mem_or_eq_of_mem_set ho with ho | rfl
    · exact h.requests other ho
    · exact hc request _ (h.requests request (mem_of_getElem? hg)) hr

omit [DecidableEq H] in
/-- What holds of every point of a program holds where it stops. -/
theorem stopAfter_guarded {key : Bytes} {x : Script Custody α} {custody final : Custody}
    {passed : List Custody} {value : α} {process : Option (DisclosureLedger H)}
    (hr : x custody = ⟨value, final, passed⟩) (hf : Guarded prim hmac key final process)
    (hp : ∀ stop ∈ passed, Guarded prim hmac key stop (none : Option (DisclosureLedger H)))
    (actions : ℕ) (crash : Crash) :
    Guarded prim hmac key ((x.stopAfter actions custody).crash crash)
      (none : Option (DisclosureLedger H)) := by
  rcases mem_cons.mp (stopAfter_mem hr actions) with heq | hm
  · rw [heq]
    exact hf.crash crash
  · exact (hp _ hm).crash crash

section

variable (h32 : Hashes32 H)

include h32

section

variable (h : s.Sound prim hmac secret)

include h

theorem Sound.execute (index : ℕ) (startedAtMs : UInt64)
    (completionClock : Except ComplianceError UInt64) (operation : DisclosureOperation T) :
    (s.executeStep prim hmac index startedAtMs completionClock operation).Sound prim hmac secret ∧
      ∀ actions crash, (s.crashedExecuteStep prim hmac index startedAtMs completionClock operation
        actions crash).Sound prim hmac secret := by
  unfold executeStep crashedExecuteStep
  obtain ⟨custody, process, requests⟩ := s
  cases process with
  | none => exact ⟨h, fun _ _ => h⟩
  | some =>
    cases hg : requests[index]? with
    | none => exact ⟨h, fun _ _ => h⟩
    | some request =>
      obtain ⟨durable, hc, hs⟩ := h.guarded
      cases hs with
      | running live kept =>
        obtain ⟨executed, final, passed, hr, hf, hn, hp⟩ :=
          live.execute_guarded h32 hc kept
            (h.requests request (mem_of_getElem? hg)) startedAtMs completionClock
            operation
        refine ⟨?_, fun actions crash => ⟨h.requests, stopAfter_guarded hr hf hp actions crash⟩⟩
        dsimp only
        rw [hr]
        refine ⟨?_, hf⟩
        intro other ho
        rcases mem_or_eq_of_mem_set ho with ho | rfl
        · exact h.requests other ho
        · exact hn

theorem Sound.closeIncomplete (requestId : Bytes32) (timestampMs : UInt64) :
    (s.step prim hmac secret (.closeIncomplete requestId timestampMs : DisclosureEvent T)).Sound
        prim hmac secret ∧
      ∀ actions crash, (s.step prim hmac secret
        (.crashedClose requestId timestampMs actions crash : DisclosureEvent T)).Sound prim hmac
          secret := by
  obtain ⟨custody, process, requests⟩ := s
  cases process with
  | none => exact ⟨h, fun _ _ => h⟩
  | some ledger =>
    obtain ⟨durable, hc, hs⟩ := h.guarded
    cases hs with
    | running live kept =>
      obtain ⟨hf, hp⟩ := live.appendsOne h32 hc kept
        (appendsOne_closeIncompleteFailure ledger requestId timestampMs)
      exact ⟨⟨h.requests, hf⟩, fun actions crash => ⟨h.requests,
        stopAfter_guarded rfl hf hp actions crash⟩⟩

theorem Sound.openLedger :
    (s.step prim hmac secret (.openLedger : DisclosureEvent T)).Sound prim hmac secret ∧
      ∀ actions crash, (s.step prim hmac secret
        (.crashedOpen actions crash : DisclosureEvent T)).Sound prim hmac secret := by
  obtain ⟨custody, process, requests⟩ := s
  cases process with
  | some => exact ⟨h, fun _ _ => h⟩
  | none =>
    obtain ⟨answer, final, passed, hr, hf, hp⟩ := Guarded.openLedger h32 h.guarded
    refine ⟨?_, fun actions crash => ⟨h.requests, stopAfter_guarded hr hf hp actions crash⟩⟩
    simp only [step, hr]
    exact ⟨h.requests, hf⟩

theorem Sound.step (event : DisclosureEvent T) :
    (s.step prim hmac secret event).Sound prim hmac secret := by
  cases event with
  | newRequest =>
    simp only [DisclosureSystem.step]
    split
    · rename_i request openings hnew
      exact ⟨forall_mem_append.mpr ⟨h.requests, forall_mem_singleton.mpr (sound_new hnew)⟩,
        h.guarded⟩
    · exact h
  | cloneRequest =>
    refine ⟨?_, h.guarded⟩
    intro other ho
    rcases mem_append.mp ho with ho | ho
    · exact h.requests other ho
    · exact h.requests other (mem_of_getElem? (Option.mem_toList.mp ho))
  | approve index =>
    refine h.updateRequest index fun request next hr hn => ?_
    obtain ⟨⟨answer, next⟩, ha, rfl⟩ := Option.map_eq_some_iff.mp hn
    exact hr.approve ha
  | deny index atMs =>
    refine h.updateRequest index fun request next hr hn => ?_
    cases hn
    exact hr.deny atMs
  | execute index startedAtMs completionClock operation =>
    exact (h.execute h32 index startedAtMs completionClock operation).1
  | crashedExecute index startedAtMs completionClock operation actions crash =>
    exact (h.execute h32 index startedAtMs completionClock operation).2 actions crash
  | closeIncomplete requestId timestampMs => exact (h.closeIncomplete h32 requestId timestampMs).1
  | crashedClose requestId timestampMs actions crash =>
    exact (Sound.closeIncomplete (T := T) h32 h requestId timestampMs).2 actions crash
  | openLedger => exact (h.openLedger h32).1
  | crashedOpen actions crash => exact (Sound.openLedger (T := T) h32 h).2 actions crash
  | closeLedger => exact ⟨h.requests, h.guarded.stop⟩
  | crash crash => exact ⟨h.requests, h.guarded.crash crash⟩

end

omit [DecidableEq H] in
theorem sound_created (prim : CryptoPrimitives) (hmac : Hmac) (secret : Bytes32)
    (dev ino : UInt64) (clock : ℕ → Ctime) :
    (created hmac secret dev ino clock : DisclosureSystem H).Sound prim hmac secret := by
  obtain ⟨ledger, final, stops, hr, hs, c, settled, hl⟩ := create_run h32 hmac secret dev ino clock
  rw [created, hr]
  exact ⟨by simp, [], ⟨by simp, by simp, by simp, by simp, hl.holds hs⟩, .running hl prefix_rfl⟩

end

/-- Two-phase disclosure, at every point of every run. -/
theorem disclosure_run (h32 : Hashes32 H) (prim : CryptoPrimitives) (hmac : Hmac)
    (secret : Bytes32) (dev ino : UInt64) (clock : ℕ → Ctime) (events : List (DisclosureEvent T)) :
    ((created hmac secret dev ino clock : DisclosureSystem H).run prim hmac secret events).Laws
      prim := by
  have hs : ∀ s : DisclosureSystem H, s.Sound prim hmac secret →
      (s.run prim hmac secret events).Sound prim hmac secret := by
    induction events with
    | nil => exact fun s h => h
    | cons event _ ih => exact fun s h => ih _ (h.step h32 event)
  exact (hs _ (sound_created h32 prim hmac secret dev ino clock)).laws

/-! ## A request that is executed, and its copy that is not -/

section Sample

def sampleDisclosureKeyId : ComplianceKeyId :=
  ⟨1, .attribution, .test, Vector.replicate 32 1, 1, 1⟩

def sampleMaterial : SensitiveRequestMaterial := ⟨[1], [2], [3]⟩

def sampleSalt (value : UInt8) : Bytes32 := Vector.replicate 32 value

def sampleCommitment (label : String) (salt : UInt8) (raw : Bytes) : Bytes32 :=
  disclosureCommitment samplePrimitives (ascii label) (sampleSalt salt) raw

def sampleRequest : DisclosureRequest where
  requestId := ((requestIdOf samplePrimitives .test .attribution [sampleDisclosureKeyId] 10 30
    (sampleCommitment "order" 4 [1]) (sampleCommitment "requester" 5 [2])
    (sampleCommitment "selectors" 6 [3])).toOption).getD zero32
  jurisdiction := .test
  purpose := .attribution
  keyIds := [sampleDisclosureKeyId]
  createdAtMs := 10
  expiresAtMs := 30
  orderCommitment := sampleCommitment "order" 4 [1]
  requesterCommitment := sampleCommitment "requester" 5 [2]
  selectorCommitment := sampleCommitment "selectors" 6 [3]
  approverKeys := []
  approvers := []
  approverSalts := []
  state := .pending

def sampleNewRequest : DisclosureEvent Unit :=
  .newRequest .test .attribution [sampleDisclosureKeyId] 10 30 sampleMaterial [sampleSalt 4]
    [sampleSalt 5] [sampleSalt 6]

def sampleApproval (key : UInt8) : DisclosureEvent Unit :=
  .approve 0 (sampleSalt key) 20
    (sampleSign (sampleSalt key) (sampleRequest.approvalPreimage 20)) [sampleSalt 7]

def sampleExecution (index : ℕ) : DisclosureEvent Unit :=
  .execute index 25 (.ok 26) fun _ => .ok ⟨(), 1, sampleSalt 8⟩

/-- The copy is executed after the ledger was opened again. -/
def sampleDisclosure : List (DisclosureEvent Unit) :=
  [sampleApproval 2, sampleApproval 3, .cloneRequest 0, sampleExecution 0, .crash .kill,
    .openLedger, sampleExecution 1]

def sampleCreated : DisclosureSystem ByteHash :=
  created LedgerSystem.checksum LedgerSystem.sampleSecret 1 1 fun tick => ⟨Int64.ofNat tick, 0⟩

set_option maxRecDepth 10000 in
theorem disclosure_run_sample :
    let s := sampleCreated.run samplePrimitives LedgerSystem.checksum LedgerSystem.sampleSecret
      (sampleNewRequest :: sampleDisclosure)
    s.custody.performed.map (·.request.requestId) = [sampleRequest.requestId] ∧
      s.Laws samplePrimitives := by
  refine ⟨?_, disclosure_run ByteHash.hashes32 _ _ _ _ _ _ _⟩
  rw [run]
  decide +kernel

end Sample

end DisclosureSystem

end Pigeonpost
