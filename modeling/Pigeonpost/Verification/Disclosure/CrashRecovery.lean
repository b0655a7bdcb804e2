import Pigeonpost.Verification.Disclosure.Appending
import Pigeonpost.Verification.Shared.ByteHash

/-! # Crash recovery of the disclosure ledger

One process at a time works on the directory. It, or the machine under it, may stop at
any point of an open or an append and while it idles, any number of times. -/

namespace Pigeonpost

open Script DisclosureLedger List

variable {H : Type} [Sha256 H]

/-- The leaves a ledger hands out. -/
def DisclosureLedger.held (ledger : DisclosureLedger H) (disk : Disk) : List Bytes :=
  (List.range ledger.leafCount).filterMap fun i => (ledger.encodedLeaf disk i).toOption.join

/-- A directory and the process on it. -/
structure LedgerSystem (H : Type) where
  disk : Disk
  process : Option (DisclosureLedger H)
  /-- The leaves whose append returned, or that a finished open handed out. -/
  acknowledged : List Bytes
  /-- The leaf whose append the last crash interrupted. -/
  inFlight : Option Bytes

/-- What a process does, or where it stops. -/
inductive LedgerEvent where
  | openLedger
  | append (leaf : DisclosureLeaf)
  /-- An open that stops after so many actions. -/
  | crashedOpen (actions : ℕ) (crash : Crash)
  | crashedAppend (leaf : DisclosureLeaf) (actions : ℕ) (crash : Crash)
  | crash (crash : Crash)

namespace LedgerSystem

variable [HashBytes H] [DecidableEq H] (hmac : Hmac) (secret : Bytes32)

def openStep (s : LedgerSystem H) : LedgerSystem H :=
  let run := (DisclosureLedger.openLedger hmac secret : LedgerIO (DisclosureLedger H)).run s.disk
  match run.value with
  | .error _ => { s with disk := run.final }
  | .ok ledger => ⟨run.final, some ledger, ledger.held run.final, none⟩

def appendStep (s : LedgerSystem H) (ledger : DisclosureLedger H) (leaf : DisclosureLeaf) :
    LedgerSystem H :=
  let run := ledger.append hmac leaf s.disk
  match run.value with
  | (.error _, ledger) => { s with disk := run.final, process := some ledger }
  | (.ok (), ledger) =>
    ⟨run.final, some ledger, s.acknowledged ++ leaf.encode.toOption.toList, none⟩

/-- A lock keeps a second process from the directory, and without a process nobody
appends. -/
def step (s : LedgerSystem H) (event : LedgerEvent) : LedgerSystem H :=
  match event, s.process with
  | .openLedger, none => s.openStep hmac secret
  | .crashedOpen actions crash, none =>
    let opening : LedgerIO (DisclosureLedger H) := DisclosureLedger.openLedger hmac secret
    { s with disk := (Script.stopAfter opening.run actions s.disk).crash crash }
  | .append leaf, some ledger => s.appendStep hmac ledger leaf
  | .crashedAppend leaf actions crash, some ledger =>
    ⟨(Script.stopAfter (ledger.append hmac leaf) actions s.disk).crash crash, none,
      s.acknowledged, leaf.encode.toOption⟩
  | .crash crash, _ => { s with disk := s.disk.crash crash, process := none }
  | .openLedger, some _ | .crashedOpen _ _, some _ | .append _, none
  | .crashedAppend _ _ _, none => s

def created (hmac : Hmac) (secret : Bytes32) (dev ino : UInt64) (clock : ℕ → Ctime) :
    LedgerSystem H :=
  let run := (DisclosureLedger.create hmac secret : LedgerIO (DisclosureLedger H)).run
    (Disk.created dev ino clock)
  ⟨run.final, run.value.toOption, [], none⟩

def run (s : LedgerSystem H) (events : List LedgerEvent) : LedgerSystem H :=
  events.foldl (step hmac secret) s

/-- The next uninterrupted open hands out exactly the acknowledged leaves, or them and the
leaf in flight, under the root of that list. -/
def Recovers (s : LedgerSystem H) : Prop :=
  ∃ (ledger : DisclosureLedger H) (final : Disk) (passed : List Disk),
    (DisclosureLedger.openLedger hmac secret).run s.disk = ⟨.ok ledger, final, passed⟩ ∧
    (ledger.held final = s.acknowledged ∨
      ∃ leaf, s.inFlight = some leaf ∧ ledger.held final = s.acknowledged ++ [leaf]) ∧
    ledger.index.root = logRoot ((ledger.held final).map leafHash)

/-- The ledger file holds the acknowledged leaves and all that the state file counts on;
if it ends there, it was not changed since the state was written. -/
def Kept (s : LedgerSystem H) : Prop :=
  (logBytes s.acknowledged).length ≤ s.disk.content.length ∧
  ∃ file state, s.disk.state = some file ∧
    PersistedLedgerState.decodeAuthenticated (H := H) hmac (deriveStateAuthenticationKey H secret)
      file.content = .ok state ∧
    state.logLen ≤ s.disk.content.length ∧
    (s.disk.content.length = state.logLen →
      ledgerMutationMarker s.disk.ledger.ctime = state.mutationMarker)

instance (s : LedgerSystem H) : Decidable (s.Kept hmac secret) :=
  match hfile : s.disk.state with
  | none => isFalse fun ⟨_, _, _, hstored, _⟩ => by
    cases hfile.symm.trans hstored
  | some file =>
    match hstate : PersistedLedgerState.decodeAuthenticated (H := H) hmac
        (deriveStateAuthenticationKey H secret) file.content with
    | .error _ => isFalse fun ⟨_, _, _, hstored, hdecoded, _⟩ => by
      cases hfile.symm.trans hstored
      cases hstate.symm.trans hdecoded
    | .ok state =>
      decidable_of_iff ((logBytes s.acknowledged).length ≤ s.disk.content.length ∧
        state.logLen ≤ s.disk.content.length ∧
        (s.disk.content.length = state.logLen →
          ledgerMutationMarker s.disk.ledger.ctime = state.mutationMarker)) <| by
        constructor
        · rintro ⟨hlength, hlogLen, hmarker⟩
          exact ⟨hlength, file, state, hfile, hstate, hlogLen, hmarker⟩
        · rintro ⟨hlength, _, _, hstored, hdecoded, hlogLen, hmarker⟩
          cases hfile.symm.trans hstored
          cases hstate.symm.trans hdecoded
          exact ⟨hlength, hlogLen, hmarker⟩

/-- What a system reaches from a created ledger as long as its ledger is kept. -/
inductive Reached : LedgerSystem H → Prop where
  | created (dev ino : UInt64) (clock : ℕ → Ctime) : Reached (created hmac secret dev ino clock)
  | step {s : LedgerSystem H} (event : LedgerEvent) (before : Reached s)
    (kept : s.Kept hmac secret) : Reached (s.step hmac secret event)

/-- Either a process runs on a directory that holds what it acknowledged, or the directory
waits for an open. -/
inductive Sound : LedgerSystem H → Prop where
  | running {disk : Disk} {ledger : DisclosureLedger H} {acknowledged : List Bytes}
    {c settled : Commitment H}
    (live : Live hmac (deriveStateAuthenticationKey H secret) ledger disk acknowledged c settled) :
    Sound ⟨disk, some ledger, acknowledged, none⟩
  | stopped {disk : Disk} {acknowledged : List Bytes} {inFlight : Option Bytes}
    (consistent : Consistent H hmac (deriveStateAuthenticationKey H secret) disk acknowledged
      inFlight) : Sound ⟨disk, none, acknowledged, inFlight⟩

end LedgerSystem

/-! ## The leaves of an open ledger -/

theorem filterMap_range_getElem? (leaves : List Bytes) :
    (range leaves.length).filterMap (fun i => leaves[i]?) = leaves := by
  induction leaves with
  | nil => rfl
  | cons first _ ih =>
    rw [length_cons, range_succ_eq_map, filterMap_cons_some getElem?_cons_zero, filterMap_map]
    exact congrArg (first :: ·) ih

variable {hmac : Hmac} {key : Bytes} {ledger : DisclosureLedger H} {disk : Disk}
  {acknowledged : List Bytes} {inFlight : Option Bytes} {current settled c : Commitment H}

theorem DisclosureLedger.held_eq {leaves : List Bytes} (h : Replays leaves ledger.index)
    (hs : logBytes leaves <+: disk.content) : ledger.held disk = leaves := by
  have hc : ledger.leafCount = leaves.length := h.describes.leafCount
  rw [held, hc]
  simp only [encodedLeaf_eq h hs]
  exact filterMap_range_getElem? leaves

variable [HashBytes H]

theorem Live.replays (h : Live hmac key ledger disk acknowledged c settled) :
    Replays acknowledged ledger.index :=
  h.leaves_eq ▸ h.tracks.replays

theorem Live.held (h : Live hmac key ledger disk acknowledged c settled) :
    ledger.held disk = acknowledged ∧ ledger.index.root = logRoot (acknowledged.map leafHash) := by
  refine ⟨held_eq h.replays ?_, h.replays.describes.root⟩
  rw [h.content]

theorem Carries.matches_of_le (h : Carries hmac key disk current settled acknowledged inFlight)
    (hle : (logBytes current.leaves).length ≤ disk.content.length)
    (hm : disk.content.length = (logBytes current.leaves).length →
      ledgerMutationMarker disk.ledger.ctime = current.marker) : current.Matches disk := by
  have hw := h.current_fits.within.content
  exact ⟨prefix_of_prefix_length_le (logBytes_isPrefix current.leaves_isPrefix_all) hw hle, hw, hm⟩

variable {secret : Bytes32} {s : LedgerSystem H}

/-- The state file tells whether the ledger file matches the commitment. -/
theorem Carries.kept_iff (h32 : Hashes32 H)
    (h : Carries hmac (deriveStateAuthenticationKey H secret) s.disk current settled s.acknowledged
      s.inFlight) :
    s.Kept hmac secret ↔
      (logBytes s.acknowledged).length ≤ s.disk.content.length ∧ current.Matches s.disk := by
  obtain ⟨bytes, hs, he⟩ := h.current_stored
  have hd := (Commitment.StoredIn.decode h32 ⟨bytes, rfl, he⟩).1
  constructor
  · rintro ⟨hl, file, state, hf, hsto, hle, hmar⟩
    cases hs.symm.trans hf
    cases hd.symm.trans hsto
    exact ⟨hl, h.matches_of_le hle hmar⟩
  · rintro ⟨hl, hm⟩
    exact ⟨hl, _, _, hs, hd, hm.start.length_le, hm.marker⟩

theorem Consistent.launch (h : Consistent H hmac key disk acknowledged none)
    (inFlight : Option Bytes) : Consistent H hmac key disk acknowledged inFlight := by
  cases inFlight with
  | none => exact h
  | some encoded =>
    obtain ⟨current, settled, h⟩ := h
    exact ⟨current, settled, h.launch encoded⟩

def Commitment.empty (ctime : Ctime) : Commitment H where
  leaves := []
  pending := none
  marker := ledgerMutationMarker ctime
  marker_length := length_ledgerMutationMarker ctime
  replays := ⟨_, .nil⟩

theorem create_run (h32 : Hashes32 H) (hmac : Hmac) (secret : Bytes32) (dev ino : UInt64)
    (clock : ℕ → Ctime) :
    ∃ ledger final passed, (create hmac secret).run (Disk.created dev ino clock) =
        ⟨.ok ledger, final, passed⟩ ∧
      final.ledger.data.synced = final.content ∧
      ∃ c settled : Commitment H,
        Live hmac (deriveStateAuthenticationKey H secret) ledger final [] c settled := by
  obtain ⟨written, writeStops, hwrite, hw, -⟩ := writeAll_run logMagic (Disk.created dev ino clock)
  let synced := written.syncAll
  have hc : synced.content = logBytes [] := hw.content
  let c : Commitment H := .empty synced.ledger.ctime
  let ledger : DisclosureLedger H :=
    .ofEmpty (deriveStateAuthenticationKey H secret) synced.ledger
  have hl : ledger.Tracks (deriveStateAuthenticationKey H secret)
      (ledgerFileIdentity synced.ledger) c := ⟨.nil, rfl⟩
  obtain ⟨file, hf, persistStops, hp, -⟩ := hl.persistState_run h32 hmac synced
  have hwit : synced.ledger.data.Within (logBytes c.all) := DurableFile.within_sync hw.content
  refine ⟨ledger, withState synced file, writeStops ++ (written :: persistStops), ?_, rfl, _, _,
    carries_withState hf ⟨hwit, .inl rfl⟩, hl, rfl, rfl, rfl, hc, rfl⟩
  unfold create
  rw [run_get_bind, if_neg (by simp [Disk.created]), run_lift_bind, hwrite]
  rw [run_act_bind, run_get_bind, run_bind_of_ok hp, run_pure, append_nil]

theorem LedgerSystem.Sound.carries (h : s.Sound hmac secret) :
    ∃ current settled : Commitment H, Carries hmac (deriveStateAuthenticationKey H secret) s.disk
      current settled s.acknowledged s.inFlight := by
  cases h with
  | running live => exact ⟨_, _, live.carries⟩
  | stopped consistent => exact consistent

/-! ## One step -/

variable [DecidableEq H]

theorem Carries.matches_of_openCommitted (h32 : Hashes32 H)
    (h : Carries hmac key disk current settled acknowledged inFlight)
    (ho : openCommitted hmac key disk = .ok ledger) : current.Matches disk := by
  obtain ⟨hle, hm⟩ := of_openCommitted_ok h32 h.current_stored ho
  exact h.matches_of_le hle hm

theorem Carries.recovers_iff (h32 : Hashes32 H)
    (h : Carries hmac (deriveStateAuthenticationKey H secret) s.disk current settled s.acknowledged
      s.inFlight) : s.Recovers hmac secret ↔ s.Kept hmac secret := by
  rw [h.kept_iff h32]
  constructor
  · rintro ⟨ledger, final, passed, hr, hh, -⟩
    obtain ⟨committed, hcom⟩ := openCommitted_of_openLedger_ok
      (show ((openLedger hmac secret).run s.disk).value = .ok ledger by rw [hr])
    have hm := h.matches_of_openCommitted h32 hcom
    obtain ⟨leaves, opened, after, stops, ho, ⟨c, before, hlive⟩, hl, -⟩ := openLedger_spec h32 h hm
    rw [ho, Script.Run.mk.injEq, Except.ok.injEq] at hr
    obtain ⟨rfl, rfl, rfl⟩ := hr
    rw [hlive.held.1] at hh
    refine ⟨le_trans ?_ hl, hm⟩
    rcases hh with hh | ⟨leaf, -, hh⟩
    · rw [hh]
    · rw [hh]
      exact (logBytes_isPrefix (prefix_append _ _)).length_le
  · rintro ⟨hl, hm⟩
    obtain ⟨leaves, opened, after, stops, ho, ⟨c, before, hlive⟩, -, hlea, -⟩ :=
      openLedger_spec h32 h hm
    refine ⟨opened, after, stops, ho, ?_⟩
    rw [hlive.held.1]
    exact ⟨(hlea hl).1, hlive.held.2⟩

theorem append_of_error {leaf : DisclosureLeaf} {e : ComplianceError}
    (h : ledger.prepareAppend leaf = .error e) :
    ledger.append hmac leaf disk = ⟨(.error e, ledger), disk, []⟩ := by
  unfold append
  rw [h]
  rfl

namespace LedgerSystem

section

variable (h32 : Hashes32 H) (h : s.Sound hmac secret) (hk : s.Kept hmac secret)

include h32 h hk

theorem Sound.openStep : (s.openStep hmac secret).Sound hmac secret := by
  obtain ⟨current, settled, hc⟩ := h.carries
  obtain ⟨-, hm⟩ := (hc.kept_iff h32).mp hk
  obtain ⟨leaves, opened, after, stops, ho, ⟨c, before, hl⟩, -, -⟩ := openLedger_spec h32 hc hm
  rw [LedgerSystem.openStep, ho]
  dsimp only
  rw [hl.held.1]
  exact .running hl

theorem Sound.crashedOpen (actions : ℕ) :
    Consistent H hmac (deriveStateAuthenticationKey H secret)
      (stopAfter (openLedger (H := H) hmac secret).run actions s.disk)
      s.acknowledged s.inFlight := by
  obtain ⟨current, settled, hc⟩ := h.carries
  obtain ⟨hl, hm⟩ := (hc.kept_iff h32).mp hk
  obtain ⟨leaves, opened, after, stops, ho, -, -, hs, -⟩ := openLedger_spec h32 hc hm
  obtain ⟨-, hs⟩ := hs hl
  exact hs _ (stopAfter_mem ho actions)

end

end LedgerSystem

theorem Live.appendStep (h32 : Hashes32 H)
    (h : Live hmac (deriveStateAuthenticationKey H secret) ledger disk acknowledged c settled)
    (leaf : DisclosureLeaf) :
    (LedgerSystem.appendStep hmac ⟨disk, some ledger, acknowledged, none⟩ ledger leaf).Sound hmac
      secret := by
  cases hp : ledger.prepareAppend leaf with
  | error =>
    rw [LedgerSystem.appendStep, append_of_error hp]
    exact .running h
  | ok =>
    obtain ⟨he, next, final, passed, hr, ⟨c, settled, hn⟩, -⟩ := h.append_run h32 hp
    rw [LedgerSystem.appendStep, hr]
    rw [he]
    exact .running hn

theorem Live.crashedAppend (h32 : Hashes32 H)
    (h : Live hmac key ledger disk acknowledged c settled) (leaf : DisclosureLeaf) (actions : ℕ) :
    Consistent H hmac key (stopAfter (ledger.append hmac leaf) actions disk) acknowledged
      leaf.encode.toOption := by
  cases hp : ledger.prepareAppend leaf with
  | error =>
    rw [stopAfter, append_of_error hp]
    exact Consistent.launch ⟨_, _, h.carries⟩ _
  | ok =>
    obtain ⟨he, next, final, passed, hr, -, -, hs⟩ := h.append_run h32 hp
    rw [he]
    exact (hs _ (stopAfter_mem hr actions)).1

namespace LedgerSystem

theorem Sound.step (h32 : Hashes32 H) (h : s.Sound hmac secret) (hk : s.Kept hmac secret)
    (event : LedgerEvent) : (s.step hmac secret event).Sound hmac secret := by
  cases h with
  | running live =>
    cases event with
    | openLedger | crashedOpen => exact .running live
    | append leaf => exact live.appendStep h32 leaf
    | crashedAppend leaf actions crash =>
      exact .stopped ((live.crashedAppend h32 leaf actions).crash crash)
    | crash crash => exact .stopped (Consistent.crash ⟨_, _, live.carries⟩ crash)
  | stopped consistent =>
    cases event with
    | openLedger => exact Sound.openStep h32 (.stopped consistent) hk
    | append | crashedAppend => exact .stopped consistent
    | crashedOpen actions crash =>
      exact .stopped ((Sound.crashedOpen h32 (.stopped consistent) hk actions).crash crash)
    | crash crash => exact .stopped (consistent.crash crash)

/-! ## Whole runs -/

theorem Reached.sound (h32 : Hashes32 H) (h : s.Reached hmac secret) : s.Sound hmac secret := by
  induction h with
  | created dev ino clock =>
    obtain ⟨ledger, final, stops, hr, -, c, settled, hl⟩ := create_run h32 hmac secret dev ino clock
    rw [LedgerSystem.created, hr]
    exact .running hl
  | step event _ kept ih => exact ih.step h32 kept event

/-- In every run whose ledger was kept so far, at every point, the next uninterrupted open
recovers the acknowledged leaves, with the leaf in flight or without it, exactly when the
ledger is kept. -/
theorem recovers_iff_kept (h32 : Hashes32 H) (h : s.Reached hmac secret) :
    s.Recovers hmac secret ↔ s.Kept hmac secret := by
  obtain ⟨current, settled, hc⟩ := (h.sound h32).carries
  exact hc.recovers_iff h32

/-- Between crashes a running ledger hands out exactly what it acknowledged, in order, and
its root commits to nothing else. -/
theorem running_holds_acknowledged (h32 : Hashes32 H) (h : s.Reached hmac secret) :
    ∀ ledger ∈ s.process, ledger.held s.disk = s.acknowledged ∧
      ledger.index.root = logRoot (s.acknowledged.map leafHash) := by
  intro ledger hl
  cases h.sound h32 with
  | running live =>
    cases hl
    exact live.held
  | stopped => cases hl

theorem Reached.run_append {events : List LedgerEvent}
    (h : (s.run hmac secret events).Reached hmac secret)
    (hk : (s.run hmac secret events).Kept hmac secret) (event : LedgerEvent) :
    (s.run hmac secret (events ++ [event])).Reached hmac secret := by
  rw [run, foldl_append]
  exact h.step event hk

/-- A directory whose committed part does not open. -/
def Refused (s : LedgerSystem H) (hmac : Hmac) (secret : Bytes32) : Prop :=
  ∃ e, (DisclosureLedger.openCommitted hmac (deriveStateAuthenticationKey H secret) s.disk :
    Except ComplianceError (DisclosureLedger H)) = .error e

instance (s : LedgerSystem H) : Decidable (s.Refused hmac secret) :=
  match h : (DisclosureLedger.openCommitted hmac (deriveStateAuthenticationKey H secret) s.disk :
      Except ComplianceError (DisclosureLedger H)) with
  | .error e => isTrue ⟨e, h⟩
  | .ok _ => isFalse fun ⟨_, hrefused⟩ => by
    cases h.symm.trans hrefused

theorem Refused.openLedger_run (h : s.Refused hmac secret) :
    ∃ e, (openLedger hmac secret : LedgerIO (DisclosureLedger H)).run s.disk =
      ⟨.error e, s.disk, []⟩ := by
  obtain ⟨e, h⟩ := h
  exact ⟨e, openLedger_run_of_error h⟩

theorem Refused.not_recovers (h : s.Refused hmac secret) : ¬ s.Recovers hmac secret := by
  rintro ⟨ledger, final, passed, hr, -⟩
  obtain ⟨e, ho⟩ := h.openLedger_run
  cases ho.symm.trans hr

/-- A refused open leaves the directory as it is, so that every later one is refused too. -/
theorem Refused.run_replicate (h : s.Refused hmac secret) (hp : s.process = none)
    (attempts : ℕ) : s.run hmac secret (replicate attempts .openLedger) = s := by
  obtain ⟨e, ho⟩ := h.openLedger_run
  have hs : s.step hmac secret .openLedger = s := by
    obtain ⟨disk, process, acknowledged, inFlight⟩ := s
    obtain rfl : process = none := hp
    change LedgerSystem.openStep hmac secret _ = _
    rw [LedgerSystem.openStep, ho]
  induction attempts with
  | zero => rfl
  | succ _ ih =>
    rw [run, replicate_succ, foldl_cons, hs]
    exact ih

/-! ## A ledger that no open can recover -/

section Stranded

def checksum : Hmac := ⟨fun key data => bytes32 [ByteHash.mix 1 (key ++ data)]⟩

def sampleSecret : Bytes32 := Vector.replicate 32 5

def sampleIntent (id : UInt8) : DisclosureLeaf := .intent {
  requestId := Vector.replicate 32 id
  timestampMs := 1
  jurisdiction := .test
  purpose := .attribution
  keyIds := [⟨1, .attribution, .test, Vector.replicate 32 1, 1, 1⟩]
  orderCommitment := Vector.replicate 32 1
  requesterCommitment := Vector.replicate 32 1
  selectorCommitment := Vector.replicate 32 1
  approverCommitments := [Vector.replicate 32 1, Vector.replicate 32 2] }

/-- One append returns. The process of the next is killed when four bytes of its record are
in the file. -/
def tornAppend : List LedgerEvent :=
  [.append (sampleIntent 1), .crashedAppend (sampleIntent 2) 10 .kill]

/-- The open after it is killed too, when it has cut the torn record off and synced the
file, and before it writes the new state. -/
def strandingEvents : List LedgerEvent := tornAppend ++ [.crashedOpen 2 .kill]

def sampleRun (events : List LedgerEvent) : LedgerSystem ByteHash :=
  (created checksum sampleSecret 1 1 fun tick => ⟨Int64.ofNat tick, 0⟩).run checksum sampleSecret
    events

set_option maxRecDepth 10000 in
/-- The acknowledged leaf is out of reach for good. -/
theorem not_recovers_stranded :
    (sampleRun strandingEvents).acknowledged = (sampleIntent 1).encode.toOption.toList ∧
    (sampleIntent 1).encode.isOk ∧
    ¬ (sampleRun strandingEvents).Recovers checksum sampleSecret ∧
    ∀ attempts, (sampleRun strandingEvents).run checksum sampleSecret
      (replicate attempts .openLedger) = sampleRun strandingEvents := by
  have hr : (sampleRun strandingEvents).Refused checksum sampleSecret := by decide +kernel
  have hs : (sampleRun strandingEvents).process.isNone ∧ (sampleRun strandingEvents).acknowledged =
      (sampleIntent 1).encode.toOption.toList := by decide +kernel
  refine ⟨hs.2, by decide +kernel, hr.not_recovers, ?_⟩
  exact hr.run_replicate (Option.isNone_iff_eq_none.mp hs.1)

theorem reached_tornAppend : (sampleRun tornAppend).Reached checksum sampleSecret := by
  have hc : (sampleRun []).Kept checksum sampleSecret := by decide +kernel
  have ha : (sampleRun (tornAppend.take 1)).Kept checksum sampleSecret := by decide +kernel
  have hf : (sampleRun (tornAppend.take 1)).Reached checksum sampleSecret :=
    (show (sampleRun []).Reached checksum sampleSecret from .created 1 1 _).run_append hc _
  exact hf.run_append ha _

theorem kept_tornAppend : (sampleRun tornAppend).Kept checksum sampleSecret := by decide +kernel

theorem recovers_tornAppend : (sampleRun tornAppend).Reached checksum sampleSecret ∧
    (sampleRun tornAppend).Recovers checksum sampleSecret :=
  ⟨reached_tornAppend, (recovers_iff_kept ByteHash.hashes32 reached_tornAppend).mpr kept_tornAppend⟩

/-- Opened again after the crash, the ledger holds the leaf whose append returned. -/
theorem running_holds_acknowledged_reopened : let s := sampleRun (tornAppend ++ [.openLedger])
    s.acknowledged.length = 1 ∧ ∃ ledger ∈ s.process, ledger.held s.disk = s.acknowledged := by
  have hr := reached_tornAppend.run_append kept_tornAppend .openLedger
  have hd : let s := sampleRun (tornAppend ++ [.openLedger])
      s.acknowledged.length = 1 ∧ s.process.isSome := by decide +kernel
  obtain ⟨ledger, hl⟩ := Option.isSome_iff_exists.mp hd.2
  exact ⟨hd.1, ledger, hl, (running_holds_acknowledged ByteHash.hashes32 hr ledger hl).1⟩

end Stranded

end LedgerSystem

end Pigeonpost
