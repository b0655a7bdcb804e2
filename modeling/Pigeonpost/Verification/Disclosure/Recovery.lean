import Pigeonpost.Verification.Disclosure.Commitment

/-! # Opening a ledger after a crash -/

namespace Pigeonpost

open Script List

variable {H : Type} [Sha256 H]

/-! ## The committed prefix -/

variable {encoded : Bytes}

namespace Commitment

/-- The ledger file ends somewhere in the announced record, and if it ends before the
record its change time is the one the state file remembers. -/
structure Matches (c : Commitment H) (disk : Disk) : Prop where
  start : logBytes c.leaves <+: disk.content
  within : disk.content <+: logBytes c.all
  marker : disk.content.length = (logBytes c.leaves).length →
    ledgerMutationMarker disk.ledger.ctime = c.marker

variable {c : Commitment H} {disk : Disk}

theorem Matches.length_le (h : c.Matches disk) : (logBytes c.leaves).length ≤ disk.content.length ∧
      disk.content.length ≤ (logBytes c.all).length :=
  ⟨h.start.length_le, h.within.length_le⟩

theorem length_logBytes_all_le (c : Commitment H) : (logBytes c.all).length ≤ maxLogBytes := by
  obtain ⟨index, hindex⟩ := c.replays
  have hl := hindex.length_logBytes_le
  have hc := hindex.length_le
  have hm : maxDisclosureLeaves = 100000 := rfl
  have hb : maxLogBytes = 536870912 := rfl
  unfold all
  omega

theorem length_logBytes_all (c : Commitment H) : (logBytes c.all).length =
      (logBytes c.leaves).length + (c.pending.map fun encoded => 4 + encoded.length).getD 0 := by
  cases hp : c.pending with
  | none => simp [all_of_none hp]
  | some => simp [all_of_some hp]

theorem length_lt_of_pending (h : c.pending = some encoded) :
    c.leaves.length < maxDisclosureLeaves := by
  obtain ⟨index, hindex⟩ := c.replays
  rw [h] at hindex
  obtain ⟨-, -, -, hc, -⟩ := hindex.of_append_singleton
  exact hc

theorem logBytes_length_eq_magic {leaves : List Bytes}
    (h : (logBytes leaves).length = logMagic.length) : leaves = [] := by
  cases leaves with
  | nil => rfl
  | cons => simp [logBytes] at h

theorem Matches.validFor (h : c.Matches disk) (identity : H) :
    (c.state identity).ValidFor disk.content.length identity
      (ledgerMutationMarker disk.ledger.ctime) := by
  obtain ⟨index, hindex⟩ := c.exists_replays
  obtain ⟨hle, ha⟩ := h.length_le
  rw [length_logBytes_all] at ha
  have ht : maxRecoveryTailBytes = 4 + maxLeafBytes := rfl
  refine ⟨hle, rfl, hindex.length_le, (logMagic_isPrefix c.leaves).length_le, ?_, ?_, ?_,
    fun heq => (h.marker heq).symm, ?_, ?_, ?_, fun encoded he => pending_sized he⟩
  · change disk.content.length - (logBytes c.leaves).length ≤ _
    cases hp : c.pending with
    | none =>
      simp only [hp, Option.map_none, Option.getD_none] at ha
      omega
    | some =>
      have hsize := (pending_sized hp).2
      simp only [hp, Option.map_some, Option.getD_some] at ha
      omega
  · intro hp
    change disk.content.length = (logBytes c.leaves).length
    simp only [show c.pending = none from hp, Option.map_none, Option.getD_none] at ha
    omega
  · intro encoded he
    change disk.content.length - (logBytes c.leaves).length ≤ _
    simp only [show c.pending = some encoded from he, Option.map_some, Option.getD_some] at ha
    omega
  · intro hs
    obtain ⟨encoded, he⟩ := Option.isSome_iff_exists.mp hs
    exact length_lt_of_pending he
  · intro hz
    have hn : c.leaves = [] := length_eq_zero_iff.mp hz
    simp [state, hn, lastHash, logRoot]
  · intro hne
    have hc : c.leaves ≠ [] := fun hn => hne (by simp [state, hn])
    exact ⟨fun heq => hc (logBytes_length_eq_magic heq), by simpa [state, lastHash] using hc⟩

end Commitment

namespace DisclosureLedger

variable {hmac : Hmac} {key : Bytes} {c : Commitment H} {disk : Disk}

/-- The ledger a process has right after it read a commitment. -/
def reading (key : Bytes) (identity : H) (c : Commitment H) (index : LedgerIndex H) :
    DisclosureLedger H where
  index := index
  store := {
    authenticationKey := key
    fileIdentity := identity
    mutationMarker := c.marker
    generation := c.leaves.length
    logLen := (logBytes c.leaves).length
    lastLeafHash := lastHash c.leaves
    pendingAppend := c.pending }
  statePoisoned := false

variable {index : LedgerIndex H}

variable [DecidableEq H]

theorem fromPersisted_eq (hindex : Replays c.leaves index) {content : Bytes}
    (hstart : logBytes c.leaves <+: content) (key : Bytes) (identity : H) :
    fromPersisted content key (c.state identity) = .ok (reading key identity c index) := by
  have hd := hindex.describes
  have hs := streamRecords_replays hindex hstart le_rfl
  rw [streamRecords.eq_def _ _ (logBytes c.leaves).length, if_neg (lt_irrefl _)] at hs
  have hc : ¬((logBytes c.leaves).length ≠ (logBytes c.leaves).length
      ∨ index.leafCount ≠ c.leaves.length ∨ index.root ≠ logRoot (c.leaves.map leafHash)
      ∨ (lastHash c.leaves : Option H) ≠ lastHash c.leaves) := by
    simp [hd.leafCount, hd.root]
  simp only [fromPersisted, Commitment.state]
  rw [hs]
  refine (if_neg hc).trans ?_
  cases hp : c.pending with
  | none => simp [reading, hp, pure, Except.pure]
  | some =>
    obtain ⟨all, ha⟩ := c.replays
    rw [hp] at ha
    obtain ⟨before, leaf, hb, -, -, -, hdec, hv, -⟩ := ha.of_append_singleton
    obtain rfl := hb.unique hindex
    simp [reading, hp, hdec, hv, pure, Except.pure]

variable [HashBytes H]

theorem openCommitted_of_matches (h32 : Hashes32 H)
    (hs : c.StoredIn hmac key (ledgerFileIdentity disk.ledger) disk.state) (h : c.Matches disk) :
    ∃ ledger, openCommitted hmac key disk = .ok ledger ∧
      ledger.Tracks key (ledgerFileIdentity disk.ledger) c ∧ ledger.statePoisoned = false := by
  obtain ⟨index, hindex⟩ := c.exists_replays
  obtain ⟨hle, ha⟩ := h.length_le
  have hm := (logMagic_isPrefix c.leaves).length_le
  have hmax := c.length_logBytes_all_le
  have ht : disk.content.take logMagic.length = logMagic :=
    (prefix_iff_eq_take.mp ((logMagic_isPrefix c.leaves).trans h.start)).symm
  refine ⟨reading key _ c index, ?_, ⟨hindex, rfl⟩, rfl⟩
  have ⟨_, hstate, _⟩ := hs
  rw [hstate] at hs
  obtain ⟨hd, hsize⟩ := hs.decode h32
  have hv := (h.validFor (ledgerFileIdentity disk.ledger)).validate
  simp only [openCommitted, hstate] at hsize ⊢
  rw [if_neg (by omega), if_neg (by omega), hd, ok_bind, pure_bind, if_neg (by omega),
    if_neg (not_not.mpr ht)]
  simp only [hv, ok_bind, fromPersisted_eq hindex h.start]

end DisclosureLedger

/-! ## The tail -/

namespace DisclosureLedger

variable {key : Bytes} {c : Commitment H} {disk : Disk} {ledger : DisclosureLedger H} {identity : H}

section

variable (hlr : ledger.Tracks key identity c)

include hlr

/-- What a ledger looks like once the tail is settled, up to the change time. -/
structure Recovered (ledger : DisclosureLedger H) (key : Bytes) (identity : H)
    (leaves : List Bytes) : Prop where
  replays : Replays leaves ledger.index
  key : ledger.store.authenticationKey = key
  identity : ledger.store.fileIdentity = identity
  generation : ledger.store.generation = leaves.length
  logLen : ledger.store.logLen = (logBytes leaves).length
  lastLeafHash : ledger.store.lastLeafHash = lastHash leaves
  pending : ledger.store.pendingAppend = none

section

variable (hp : c.pending = some encoded)

include hp

theorem absorbTail_eq :
    ∃ next, ledger.absorbTail encoded (logBytes c.all).length = .ok next ∧
      next.clearPending.Recovered key identity c.all ∧
      next.statePoisoned = ledger.statePoisoned := by
  obtain ⟨after, ha⟩ := c.replays
  rw [hp] at ha
  obtain ⟨before, leaf, hb, hc, -, -, hd, hv, habs⟩ := ha.of_append_singleton
  obtain rfl := hb.unique hlr.replays
  have hl : ledger.leafCount = c.leaves.length := hlr.replays.describes.leafCount
  have hll : ledger.store.logLen = (logBytes c.leaves).length := by rw [hlr.store]
  let next : DisclosureLedger H := { ledger with
    index := after
    store := { ledger.store with
      generation := after.leafCount
      logLen := (logBytes c.all).length
      lastLeafHash := some (leafHash encoded) } }
  refine ⟨next, ?_, ?_, rfl⟩
  · rw [absorbTail, hd, ok_bind, hv, if_neg (by omega), hll, habs]
    rfl
  · have hall : c.all = c.leaves ++ [encoded] := Commitment.all_of_some hp
    rw [hall]
    exact ⟨ha, by simp [next, clearPending, hlr.store],
      by simp [next, clearPending, hlr.store], ha.describes.leafCount,
      congrArg (fun leaves => (logBytes leaves).length) hall,
      (lastHash_append_singleton _ _).symm, rfl⟩

/-- The bytes behind the committed ones are compared with the announced record. -/
theorem recoverBoundedTail_eq {tail : Bytes} (hc : disk.content = logBytes c.leaves ++ tail)
    (ht : tail <+: ledgerRecord encoded) :
    (ledger.recoverBoundedTail disk.content.length).run disk =
      (if tail.length < (ledgerRecord encoded).length then do
        Script.act (Disk.setLen (logBytes c.leaves).length)
        Script.act Disk.syncAll
        return (true, ledger.clearPending)
      else do
        let ledger ← ledger.absorbTail encoded disk.content.length
        return (true, ledger.clearPending) : LedgerIO (Bool × DisclosureLedger H)).run disk := by
  have hsize := (Commitment.pending_sized hp).2
  have htail : maxRecoveryTailBytes = 4 + maxLeafBytes := rfl
  have hle := ht.length_le
  have hlen := length_ledgerRecord encoded
  have hl : disk.content.length = (logBytes c.leaves).length + tail.length := by
    rw [hc, length_append]
  have hr : readExact disk.content (logBytes c.leaves).length tail.length = .ok tail := by
    have hslice : readExact (logBytes c.leaves ++ (tail ++ [])) (logBytes c.leaves).length
        tail.length = .ok tail := readExact_append rfl rfl
    rwa [append_nil, ← hc] at hslice
  simp only [recoverBoundedTail, hlr.store, hp]
  rw [hl, Nat.add_sub_cancel_left, if_neg (by omega), if_neg (by omega), run_get_bind, hr,
    run_ok_bind, if_neg (not_not.mpr (prefix_iff_eq_take.mp ht))]

/-- A complete record is taken in without touching the disk. -/
theorem recoverBoundedTail_of_complete (hc : disk.content = logBytes c.all) :
    ∃ next, (ledger.recoverBoundedTail disk.content.length).run disk =
        ⟨.ok (true, next), disk, []⟩ ∧
      next.Recovered key identity c.all ∧ next.statePoisoned = ledger.statePoisoned := by
  obtain ⟨next, ha, hn, hpoi⟩ := absorbTail_eq hlr hp
  refine ⟨next.clearPending, ?_, hn, hpoi⟩
  rw [← hc] at ha
  rw [Commitment.all_of_some hp, logBytes_append_singleton] at hc
  rw [recoverBoundedTail_eq hlr hp hc prefix_rfl, if_neg (lt_irrefl _), ha]
  rfl

/-- A torn record is cut off, and the file synced, before the state is written again. -/
theorem recoverBoundedTail_of_torn {torn : Bytes} (hc : disk.content = logBytes c.leaves ++ torn)
    (ht : torn <+: ledgerRecord encoded) (hne : torn ≠ ledgerRecord encoded) :
    (ledger.recoverBoundedTail disk.content.length).run disk =
      ⟨.ok (true, ledger.clearPending), (disk.setLen (logBytes c.leaves).length).syncAll,
        [disk, disk.setLen (logBytes c.leaves).length]⟩ := by
  have hs := lt_of_le_of_ne ht.length_le fun heq => hne (ht.eq_of_length heq)
  rw [recoverBoundedTail_eq hlr hp hc ht, if_pos hs]
  rfl

end

theorem clearPending_recovered : ledger.clearPending.Recovered key identity c.leaves := by
  obtain ⟨index, store, poisoned⟩ := ledger
  obtain rfl := hlr.store
  exact ⟨hlr.replays, rfl, rfl, rfl, rfl, rfl, rfl⟩

end

end DisclosureLedger

/-! ## Opening -/

namespace DisclosureLedger

variable [HashBytes H] [DecidableEq H] {hmac : Hmac} {secret : Bytes32} {c : Commitment H}
  {disk after : Disk} {committed ledger : DisclosureLedger H} {leaves : List Bytes}

omit [HashBytes H] in
/-- The ledger with the change time of the file as it is now. -/
theorem Recovered.refresh {key : Bytes}
    (h : ledger.Recovered key (ledgerFileIdentity disk.ledger) leaves) (hc : c.leaves = leaves)
    (hp : c.pending = none) (hm : c.marker = ledgerMutationMarker disk.ledger.ctime)
    (hcon : disk.content = logBytes leaves) :
    ∃ opened, ledger.refreshStoreFileStamp disk = .ok opened ∧
      opened.Tracks key (ledgerFileIdentity disk.ledger) c ∧
      opened.statePoisoned = ledger.statePoisoned := by
  subst hc
  refine ⟨_, if_neg (not_not.mpr h.identity.symm), ⟨h.replays, ?_⟩, rfl⟩
  rw [hcon, hm, hp, ← h.key, ← h.identity, ← h.generation, ← h.lastLeafHash, ← h.pending]

theorem openLedger_run_recovered (h32 : Hashes32 H) {passed : List Disk}
    (ho : openCommitted hmac (deriveStateAuthenticationKey H secret) disk = .ok committed)
    (hr : (committed.recoverBoundedTail disk.content.length).run disk =
      ⟨.ok (true, ledger), after, passed⟩)
    (h : ledger.Recovered (deriveStateAuthenticationKey H secret)
      (ledgerFileIdentity after.ledger) leaves)
    (hcon : after.content = logBytes leaves) (hc : c.leaves = leaves)
    (hp : c.pending = none) (hm : c.marker = ledgerMutationMarker after.ledger.ctime) :
    ∃ opened file stops,
      (openLedger hmac secret).run disk = ⟨.ok opened, withState after file, passed ++ stops⟩ ∧
      opened.Tracks (deriveStateAuthenticationKey H secret) (ledgerFileIdentity after.ledger) c ∧
      opened.statePoisoned = ledger.statePoisoned ∧
      c.StoredIn hmac (deriveStateAuthenticationKey H secret) (ledgerFileIdentity after.ledger)
        file ∧
      ∀ stop ∈ stops, Publishing after stop file := by
  obtain ⟨opened, href, ht, hpoi⟩ := h.refresh hc hp hm hcon
  obtain ⟨file, hs, stops, hper, hstops⟩ := ht.persistState_run h32 hmac after
  refine ⟨opened, file, stops, ?_, ht, hpoi, hs, hstops⟩
  have hcheck : ledger.checkRecovered true after = .ok () := by
    apply if_neg
    simp [h.logLen, h.identity, hcon]
  unfold openLedger
  rw [run_get_bind, ho, run_ok_bind, run_bind_of_ok hr]
  rw [run_get_bind, hcheck, run_ok_bind, if_pos (.inl rfl), href, run_ok_bind, run_bind_of_ok hper]
  simp

/-- An open with nothing to recover only reads. -/
theorem openLedger_run_clean {identity : H}
    (ho : openCommitted hmac (deriveStateAuthenticationKey H secret) disk = .ok committed)
    (hs : disk.state ≠ none)
    (ht : committed.Tracks (deriveStateAuthenticationKey H secret) identity c)
    (hide : identity = ledgerFileIdentity disk.ledger) (hp : c.pending = none)
    (hc : disk.content = logBytes c.leaves)
    (hm : ledgerMutationMarker disk.ledger.ctime = c.marker) :
    (openLedger hmac secret).run disk = ⟨.ok committed, disk, []⟩ := by
  have hr : (committed.recoverBoundedTail (logBytes c.leaves).length).run disk =
      ⟨.ok (false, committed), disk, []⟩ := by
    simp only [recoverBoundedTail, ht.store, hp]
    rw [if_neg (by omega), if_neg (not_not.mpr rfl)]
    rfl
  have hcheck : committed.checkRecovered false disk = .ok () := by
    apply if_neg
    simp [ht.store, hc, hm, hide]
  unfold openLedger
  rw [run_get_bind, ho, run_ok_bind, hc, run_bind_of_ok hr]
  rw [run_get_bind, hcheck, if_neg (by simpa using hs)]
  rfl

/-- The committed part opens only if the file reaches the committed length, and at that
length only with the change time the state remembers. -/
theorem of_openCommitted_ok (h32 : Hashes32 H) {key : Bytes}
    (hs : c.StoredIn hmac key (ledgerFileIdentity disk.ledger) disk.state)
    (h : openCommitted hmac key disk = .ok ledger) :
    (logBytes c.leaves).length ≤ disk.content.length ∧
      (disk.content.length = (logBytes c.leaves).length →
        ledgerMutationMarker disk.ledger.ctime = c.marker) := by
  have ⟨_, hstate, _⟩ := hs
  rw [hstate] at hs
  simp only [openCommitted, hstate, (hs.decode h32).1, ok_bind, ok_iff, pure_bind] at h
  obtain ⟨-, -, -, -, _, hv, -⟩ := h
  obtain ⟨hle, hm⟩ := PersistedLedgerState.of_validate hv
  exact ⟨hle, fun heq => (hm heq).symm⟩

/-- A directory whose committed part does not open is left as it is. -/
theorem openLedger_run_of_error {e : ComplianceError}
    (h : (openCommitted hmac (deriveStateAuthenticationKey H secret) disk :
      Except ComplianceError (DisclosureLedger H)) = .error e) :
    (openLedger hmac secret : LedgerIO (DisclosureLedger H)).run disk = ⟨.error e, disk, []⟩ := by
  unfold openLedger
  rw [run_get_bind, h, run_error_bind]

theorem openCommitted_of_openLedger_ok
    (h : ((openLedger hmac secret).run disk).value = .ok ledger) :
    ∃ committed : DisclosureLedger H,
      openCommitted hmac (deriveStateAuthenticationKey H secret) disk = .ok committed := by
  cases ho : (openCommitted hmac (deriveStateAuthenticationKey H secret) disk :
      Except ComplianceError (DisclosureLedger H)) with
  | error =>
    rw [openLedger_run_of_error ho] at h
    cases h
  | ok committed => exact ⟨committed, rfl⟩

end DisclosureLedger

end Pigeonpost
