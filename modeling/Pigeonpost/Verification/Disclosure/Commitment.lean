import Pigeonpost.Verification.Disclosure.Replay
import Pigeonpost.Verification.Disclosure.State

/-! # What a state file commits to

A state file commits to a list of leaves and may announce one more. Publishing a new
state passes only through directories that hold the old commitment or the new one. -/

namespace Pigeonpost

open PersistedLedgerState List

variable (ctime : Ctime)

theorem length_ledgerMutationMarker : (ledgerMutationMarker ctime).length = 16 := by
  simp [ledgerMutationMarker]

/-- A list of leaves and at most one announced leaf, all of them valid in that order. -/
structure Commitment (H : Type) [Sha256 H] where
  leaves : List Bytes
  pending : Option Bytes
  marker : Bytes
  marker_length : marker.length = 16
  replays : ∃ index : LedgerIndex H, Replays (leaves ++ pending.toList) index

namespace Commitment

variable {H : Type} [Sha256 H] {encoded : Bytes}

/-- The leaves together with the announced one. -/
def all (c : Commitment H) : List Bytes := c.leaves ++ c.pending.toList

theorem all_of_none {c : Commitment H} (h : c.pending = none) : c.all = c.leaves := by
  simp [all, h]

theorem all_of_some {c : Commitment H} (h : c.pending = some encoded) :
    c.all = c.leaves ++ [encoded] := by
  simp [all, h]

section

variable (c : Commitment H)

include c

theorem leaves_isPrefix_all : c.leaves <+: c.all := prefix_append _ _

theorem exists_replays : ∃ index : LedgerIndex H, Replays c.leaves index := by
  obtain ⟨index, hindex⟩ := c.replays
  cases hp : c.pending with
  | none =>
    rw [hp, Option.toList_none, append_nil] at hindex
    exact ⟨index, hindex⟩
  | some =>
    rw [hp] at hindex
    obtain ⟨before, -, hb, -⟩ := hindex.of_append_singleton
    exact ⟨before, hb⟩

/-- The announced leaf taken in. -/
def settle (c : Commitment H) (ctime : Ctime) : Commitment H where
  leaves := c.all
  pending := none
  marker := ledgerMutationMarker ctime
  marker_length := length_ledgerMutationMarker ctime
  replays := by simpa [all] using c.replays

/-- The announced leaf dropped. -/
def rollBack (c : Commitment H) (ctime : Ctime) : Commitment H where
  leaves := c.leaves
  pending := none
  marker := ledgerMutationMarker ctime
  marker_length := length_ledgerMutationMarker ctime
  replays := by simpa using c.exists_replays

@[simp] theorem all_settle : (c.settle ctime).all = c.all :=
  all_of_none rfl

@[simp] theorem all_rollBack : (c.rollBack ctime).all = c.leaves :=
  all_of_none rfl

theorem length_logBytes_lt : (logBytes c.leaves).length < 2 ^ 64 := by
  obtain ⟨index, hindex⟩ := c.exists_replays
  have hl := hindex.length_logBytes_le
  have hc := hindex.length_le
  have hm : maxDisclosureLeaves = 100000 := rfl
  omega

def state (c : Commitment H) (identity : H) : PersistedLedgerState H where
  fileIdentity := identity
  mutationMarker := c.marker
  generation := c.leaves.length
  logLen := (logBytes c.leaves).length
  lastLeafHash := lastHash c.leaves
  pendingAppend := c.pending
  root := logRoot (c.leaves.map leafHash)

theorem sized_state (identity : H) : (c.state identity).Sized where
  marker := c.marker_length
  generation := by
    obtain ⟨index, hindex⟩ := c.exists_replays
    have hc := hindex.length_le
    have hm : maxDisclosureLeaves = 100000 := rfl
    change c.leaves.length < 2 ^ 64
    omega
  logLen := c.length_logBytes_lt

end

theorem pending_sized {c : Commitment H} (h : c.pending = some encoded) :
    encoded ≠ [] ∧ encoded.length ≤ maxLeafBytes := by
  obtain ⟨index, hindex⟩ := c.replays
  exact hindex.size encoded (by simp [h])

variable [HashBytes H]

/-- A state file, fully synced, that records the commitment. -/
def StoredIn (hmac : Hmac) (key : Bytes) (identity : H) (c : Commitment H)
    (file : Option (DurableFile UInt8)) : Prop :=
  ∃ bytes, file = some ⟨bytes, bytes⟩ ∧ (c.state identity).encodeAuthenticated hmac key = .ok bytes

variable {hmac : Hmac} {key : Bytes} {identity : H}

theorem StoredIn.decode (h32 : Hashes32 H) {c : Commitment H} {file : DurableFile UInt8}
    (h : c.StoredIn hmac key identity (some file)) :
    decodeAuthenticated hmac key file.content = .ok (c.state identity) ∧
      file.content.length ≤ maxStateBytes := by
  obtain ⟨bytes, hf, hb⟩ := h
  cases hf
  refine ⟨decodeAuthenticated_encodeAuthenticated h32 (c.sized_state identity) hb, ?_⟩
  obtain ⟨_, -, hm, -⟩ := encodeAuthenticated_eq_ok.mp hb
  exact hm

theorem StoredIn.powerLoss {c : Commitment H} {file : Option (DurableFile UInt8)}
    (h : c.StoredIn hmac key identity file) (kept : ℕ) :
    c.StoredIn hmac key identity (file.map (·.powerLoss kept)) := by
  obtain ⟨bytes, rfl, hb⟩ := h
  exact ⟨bytes, by simp, hb⟩

end Commitment

/-! ## Publishing a state -/

namespace DisclosureLedger

variable {H : Type} [Sha256 H]

/-- A ledger in memory that stands for a commitment. -/
structure Tracks (ledger : DisclosureLedger H) (key : Bytes) (identity : H) (c : Commitment H) :
    Prop where
  replays : Replays c.leaves ledger.index
  store : ledger.store = {
    authenticationKey := key
    fileIdentity := identity
    mutationMarker := c.marker
    generation := c.leaves.length
    logLen := (logBytes c.leaves).length
    lastLeafHash := lastHash c.leaves
    pendingAppend := c.pending }

variable {ledger : DisclosureLedger H} {key : Bytes} {identity : H} {c : Commitment H}

theorem Tracks.persistedState (h : ledger.Tracks key identity c) :
    ledger.persistedState = c.state identity := by
  simp only [DisclosureLedger.persistedState, h.store, h.replays.describes.root, Commitment.state]

/-- Where publishing a state file may stop: under the old entries, with the old state
settled, or with the new state not settled yet. -/
structure Publishing (disk stop : Disk) (file : Option (DurableFile UInt8)) : Prop where
  ledger : stop.ledger = disk.ledger
  entries : (stop.state = disk.state ∧ stop.settledState = disk.settledState) ∨
    (stop.state = disk.state ∧ stop.settledState = disk.state) ∨
    (stop.state = file ∧ stop.settledState = disk.state)

def withState (disk : Disk) (file : Option (DurableFile UInt8)) : Disk :=
  { disk with state := file, settledState := file, temp := .empty }

theorem writePrivateState_run {bytes : Bytes} (hm : bytes.length ≤ maxStateBytes) (disk : Disk) :
    ∃ passed, (writePrivateState bytes).run disk =
        ⟨.ok (), withState disk (some ⟨bytes, bytes⟩), passed⟩ ∧
      ∀ stop ∈ passed, Publishing disk stop (some ⟨bytes, bytes⟩) := by
  unfold writePrivateState
  rw [if_neg (not_lt.mpr hm)]
  let created := disk.createTemp
  let settled := created.syncDirectory
  let written := settled.writeTemp bytes
  let synced := written.syncTemp
  let renamed := synced.renameTemp
  refine ⟨[disk, created, settled, written, synced, renamed], rfl, ?_⟩
  intro stop hs
  simp only [mem_cons, not_mem_nil, or_false] at hs
  rcases hs with rfl | rfl | rfl | rfl | rfl | rfl
  · exact ⟨rfl, .inl ⟨rfl, rfl⟩⟩
  · exact ⟨rfl, .inl ⟨rfl, rfl⟩⟩
  · exact ⟨rfl, .inr (.inl ⟨rfl, rfl⟩)⟩
  · exact ⟨rfl, .inr (.inl ⟨rfl, rfl⟩)⟩
  · exact ⟨rfl, .inr (.inl ⟨rfl, rfl⟩)⟩
  · exact ⟨rfl, .inr (.inr ⟨rfl, rfl⟩)⟩

variable [HashBytes H]

theorem Tracks.persistState_run (h32 : Hashes32 H) (h : ledger.Tracks key identity c)
    (hmac : Hmac) (disk : Disk) :
    ∃ file, c.StoredIn hmac key identity file ∧ ∃ passed,
      (ledger.persistState hmac).run disk = ⟨.ok (), withState disk file, passed⟩ ∧
      ∀ stop ∈ passed, Publishing disk stop file := by
  obtain ⟨bytes, hb⟩ := exists_encodeAuthenticated h32
    (c.sized_state identity) hmac key (fun encoded he => Commitment.pending_sized he)
  obtain ⟨_, -, hmax, -⟩ := encodeAuthenticated_eq_ok.mp hb
  obtain ⟨passed, hr, hp⟩ := writePrivateState_run hmax disk
  refine ⟨some ⟨bytes, bytes⟩, ⟨bytes, rfl, hb⟩, passed, ?_, hp⟩
  have hc : ¬(ledger.store.generation ≠ ledger.leafCount ∨ ledger.store.logLen < logMagic.length
      ∨ ledger.store.lastLeafHash.isSome ≠ decide (ledger.leafCount ≠ 0)) := by
    have hcount : ledger.leafCount = c.leaves.length := h.replays.describes.leafCount
    have hm := (logMagic_isPrefix c.leaves).length_le
    have hlast : (lastHash c.leaves : Option H).isSome = decide (c.leaves.length ≠ 0) := by
      cases hl : c.leaves with
      | nil => rfl
      | cons => simp [lastHash]
    rw [h.store, hcount, hlast]
    simp only [ne_eq, not_true, or_false, false_or]
    omega
  rw [persistState, if_neg hc, h.persistedState, h.store, hb]
  exact hr

end DisclosureLedger

end Pigeonpost
